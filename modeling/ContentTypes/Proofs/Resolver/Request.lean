import ContentTypes.Proofs.Resolver.Building
import ContentTypes.Proofs.Resolver.InheritanceCheck
import ContentTypes.Resolver

/-! # What a request gives

A request ends in one of five ways (`Cache.resolve_ends`), from which the facts about requests are read off.
It leaves a trusted cache trusted, whether it succeeds or not (`Cache.Trusted.resolve`), and what it gives
answers for the requested names (`Cache.answers_resolve`). With nothing pending it succeeds exactly
if the request is `Resolvable` (`Cache.resolve_ok_iff`): this is read off the declarations alone, so what
is cached does not matter. -/

namespace ContentTypes

open Registry Visit Build

namespace Registry

variable {r : Registry} {names : List Name}

theorem checkRequest_ok_iff : r.checkRequest names = .ok () ↔ r.Sound {n | n ∈ names} := by
  unfold checkRequest
  split
  · next unknown hfind =>
    have hmem := List.mem_of_find?_eq_some hfind
    have hnot := List.find?_some hfind
    refine ⟨fun h => (by cases h), fun hs => ?_⟩
    rw [hs.registered unknown (r.subset_closure _ hmem)] at hnot
    cases hnot
  · exact checkInheritance_ok_iff

/-- **A request that can be answered**: it names something and nothing empty, the inheritance above it is
sound and the declarations there are harmonious. -/
structure Resolvable (r : Registry) (names : List Name) : Prop where
  nonempty : names ≠ []
  named : "" ∉ names
  sound : r.Sound {n | n ∈ names}
  harmonious : r.Harmonious {n | n ∈ names}

end Registry

theorem checkNames_ok_iff {names : List Name} : checkNames names = .ok () ↔ names ≠ [] ∧ "" ∉ names := by
  unfold checkNames
  cases names with
  | nil => simp
  | cons n l =>
    simp only [List.isEmpty_cons, Bool.false_eq_true, if_false, ne_eq, reduceCtorEq, not_false_eq_true,
      true_and]
    split
    · next h =>
      obtain ⟨m, hm, he⟩ := List.any_eq_true.1 h
      obtain rfl := eq_of_beq he
      simp only [reduceCtorEq, false_iff]
      exact fun hno => hno hm
    · next h =>
      simp only [true_iff]
      exact fun hm => h (List.any_eq_true.2 ⟨"", hm, by simp⟩)

namespace Cache

variable {c : Cache} {r : Registry} {pending : Set Name} {names : List Name} {res : Resolution}

/-- Building starts with no visit made. -/
theorem Trusted.standing (hc : c.Trusted r pending) (s : Set Name) :
    Standing r pending s (.supertypes, c) :=
  ⟨rfl, hc, [], List.nodup_nil, rfl, by simp, by simp⟩

theorem build_spec (hc : c.Trusted r pending) (hne : names ≠ []) (hs : r.Sound {n | n ∈ names}) :
    (c.build r names).2.Trusted r pending ∧
      (∀ e, (c.build r names).1 = .ok e → r.Answers pending {n | n ∈ names} e) ∧
      ∀ x, (c.build r names).1 = .error x → Refused r pending {n | n ∈ names} x := by
  have hspec := ensures_aggregate hs (VisitGuard.maxSupertypeDepth + 1) (hc.standing _) hne
    (fun n hn => ⟨r.subset_closure _ hn, ready_of_sound hs hn (.refl _)⟩) (Nat.lt_succ_self _)
  obtain ⟨hok, herr⟩ := after_start hspec
  have hbuild : c.build r names = start (r.aggregate (VisitGuard.maxSupertypeDepth + 1) names) c := rfl
  rw [← hbuild] at hok herr
  refine ⟨?_, fun e he => ?_, fun x hx => ?_⟩
  · cases h : (c.build r names).1 with
    | ok e =>
      obtain ⟨g, hst, -⟩ := hok e h
      exact hst.trusted
    | error x =>
      obtain ⟨g, ht, -⟩ := herr x h
      exact ht
  · obtain ⟨g, -, -, hans⟩ := hok e he
    exact hans
  · obtain ⟨g, -, href⟩ := herr x hx
    exact href

/-- **How a request ends**, with what it gives and leaves: at its names, with what is cached, at the check,
or with what building gives. -/
inductive Ends (c : Cache) (r : Registry) (names : List Name) : Except Error Resolution × Cache → Prop where
  | unnamed {x : Error} : checkNames names = .error x → c.Ends r names (.error x, c)
  | cached {type : EffectiveType} : checkNames names = .ok () →
      (c.keyFor names).2.get? (c.keyFor names).1 = some type →
      c.Ends r names (.ok ⟨type, true⟩, (c.keyFor names).2)
  | refused {x : Error} : checkNames names = .ok () →
      (c.keyFor names).2.get? (c.keyFor names).1 = none → r.checkRequest names = .error x →
      c.Ends r names (.error x, (c.keyFor names).2)
  | failed {x : Error} : checkNames names = .ok () →
      (c.keyFor names).2.get? (c.keyFor names).1 = none → r.checkRequest names = .ok () →
      ((c.keyFor names).2.build r names).1 = .error x →
      c.Ends r names (.error x, ((c.keyFor names).2.build r names).2)
  | built {e : EffectiveType} : checkNames names = .ok () →
      (c.keyFor names).2.get? (c.keyFor names).1 = none → r.checkRequest names = .ok () →
      ((c.keyFor names).2.build r names).1 = .ok e →
      c.Ends r names (.ok ⟨e, false⟩, ((c.keyFor names).2.build r names).2)

theorem resolve_ends (c : Cache) (r : Registry) (names : List Name) :
    c.Ends r names (c.resolve r names) := by
  unfold resolve
  split
  · next x hnames => exact .unnamed hnames
  · next hnames =>
    dsimp only
    split
    · next type hget => exact .cached hnames hget
    · next hget =>
      split
      · next x hcheck => exact .refused hnames hget hcheck
      · next hcheck =>
        cases hout : ((c.keyFor names).2.build r names).1 with
        | error x => exact .failed hnames hget hcheck hout
        | ok e => exact .built hnames hget hcheck hout

theorem resolve_spec (hc : c.Trusted r pending) (names : List Name) :
    (c.resolve r names).2.Trusted r pending ∧
      (∀ res, (c.resolve r names).1 = .ok res →
        names ≠ [] ∧ "" ∉ names ∧ r.Answers pending {n | n ∈ names} res.type) ∧
      ∀ x, (c.resolve r names).1 = .error x → (∀ t, t ∉ pending) → ¬ r.Resolvable names := by
  have hc' := hc.keyFor names
  have hends := c.resolve_ends r names
  generalize c.resolve r names = out at hends ⊢
  cases hends with
  | unnamed hnames =>
    refine ⟨hc, fun res h => (by cases h), fun y _ _ hr => ?_⟩
    rw [checkNames_ok_iff.2 ⟨hr.nonempty, hr.named⟩] at hnames
    cases hnames
  | cached hnames hget =>
    obtain ⟨hne, hnamed⟩ := checkNames_ok_iff.1 hnames
    refine ⟨hc', fun res h => ⟨hne, hnamed, ?_⟩, fun x h => by cases h⟩
    have hans := hc'.answers (holds_of_get? hc'.keyed (keyFor_numbered hc.keyed names) hget)
    obtain rfl := Except.ok.inj h
    simpa [names_keyFor] using hans
  | refused hnames _ hcheck =>
    refine ⟨hc', fun res h => (by cases h), fun y _ _ hr => ?_⟩
    rw [checkRequest_ok_iff.2 hr.sound] at hcheck
    cases hcheck
  | failed hnames _ hcheck hout =>
    obtain ⟨ht, -, herr⟩ := build_spec hc' (checkNames_ok_iff.1 hnames).1 (checkRequest_ok_iff.1 hcheck)
    refine ⟨ht, fun res h => (by cases h), fun y _ hp hr => ?_⟩
    exact ((herr _ hout).2 hp).not_harmonious hr.harmonious
  | built hnames _ hcheck hout =>
    obtain ⟨hne, hnamed⟩ := checkNames_ok_iff.1 hnames
    obtain ⟨ht, hok, -⟩ := build_spec hc' hne (checkRequest_ok_iff.1 hcheck)
    refine ⟨ht, fun res h => ⟨hne, hnamed, ?_⟩, fun x h => by cases h⟩
    obtain rfl := Except.ok.inj h
    exact hok _ hout

theorem Trusted.resolve (hc : c.Trusted r pending) (names : List Name) :
    (c.resolve r names).2.Trusted r pending :=
  (resolve_spec hc names).1

theorem answers_resolve (hc : c.Trusted r pending) (h : (c.resolve r names).1 = .ok res) :
    r.Answers pending {n | n ∈ names} res.type :=
  ((resolve_spec hc names).2.1 res h).2.2

/-- **When a request succeeds**, with nothing pending. -/
theorem resolve_ok_iff (hc : c.Trusted r pending) (hp : ∀ t, t ∉ pending) :
    (∃ res, (c.resolve r names).1 = .ok res) ↔ r.Resolvable names := by
  obtain ⟨-, hok, herr⟩ := resolve_spec hc names
  constructor
  · rintro ⟨res, hres⟩
    obtain ⟨hne, hnamed, hans⟩ := hok res hres
    obtain ⟨hy, hs⟩ := hans.yields fun t _ => hp t
    exact ⟨hne, hnamed, hs, hy.harmonious hans.built.wellFormed⟩
  · intro hr
    cases h : (c.resolve r names).1 with
    | ok res => exact ⟨res, rfl⟩
    | error x => exact absurd hr (herr x h hp)

end Cache

end ContentTypes
