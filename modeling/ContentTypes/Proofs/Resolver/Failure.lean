import ContentTypes.Proofs.Resolver.Outcome

/-! # How requests fail

A request fails in one of three stages: its names are bad, the check of its inheritance fails, or building
does (`Cache.resolve_error_cases`). With nothing pending the first two stages depend on the request and the
declarations alone. In particular nothing that is cached hides an error of inheritance
(`inheritanceError_iff_fresh`).

In the last stage histories make a difference: the pair of clashing definitions that is met first is
reported, and when the same request is repeated another pair may be met first, or the same one with the
roles changed (`error_depends_on_history`). What can be reported then is given by the declarations
(`Registry.Reports`); a request that fails in any other way fails in the same way after every history
(`error_unless_reported`). -/

namespace ContentTypes

open Registry Visit Build

/-! ### Errors of inheritance -/

/-- The errors of inheritance: a type is not registered, inherits from itself, or heads too long a chain. -/
inductive Error.OfInheritance : Error → Prop where
  | noSuchType (n : Name) : OfInheritance (.noSuchType n)
  | cycle (n : Name) : OfInheritance (.inheritanceCycle n)
  | tooDeep (n : Name) : OfInheritance (.inheritanceTooDeep n)

theorem Error.OfInheritance.not_ofBuilding {x : Error} (h : x.OfInheritance) : ¬ x.OfBuilding := by
  rintro (⟨c, rfl⟩ | ⟨b, rfl⟩) <;> cases h

namespace Registry

variable {r : Registry} {names : List Name} {x : Error}

theorem Justifies.ofInheritance {s : Set Name} (h : r.Justifies s x) : x.OfInheritance := by
  cases h with
  | missing => exact .noSuchType _
  | circular => exact .cycle _
  | tooDeep => exact .tooDeep _
  | tooMany => exact .tooDeep _

theorem checkRequest_error (h : r.checkRequest names = .error x) : x.OfInheritance := by
  unfold checkRequest at h
  split at h
  · cases h
    exact .noSuchType _
  · exact (checkInheritance_error h).2.ofInheritance

end Registry

theorem checkNames_error {names : List Name} {x : Error} (h : checkNames names = .error x) :
    ¬ x.OfInheritance := by
  intro hx
  unfold checkNames at h
  split at h
  · cases h; cases hx
  · split at h
    · cases h; cases hx
    · cases h

/-! ### The stages of a request -/

namespace Cache

variable {c c' : Cache} {r : Registry} {pending pending' : Set Name} {names : List Name} {x : Error}

theorem resolve_of_checkNames (c : Cache) (h : checkNames names = .error x) :
    (c.resolve r names).1 = .error x := by
  unfold resolve
  rw [h]

/-- What is cached under the names of a request includes only types whose inheritance is sound, so the
check of a request that fails is made. -/
theorem resolve_of_checkRequest (hc : c.Trusted r pending) (hp : ∀ t, t ∉ pending)
    (hnames : checkNames names = .ok ()) (h : r.checkRequest names = .error x) :
    (c.resolve r names).1 = .error x := by
  have hends := c.resolve_ends r names
  have hanswers : ∀ res, (c.resolve r names).1 = .ok res → r.Answers pending {n | n ∈ names} res.type :=
    fun _ => answers_resolve hc
  generalize c.resolve r names = out at hends hanswers ⊢
  cases hends with
  | unnamed hunnamed => rw [hnames] at hunnamed; cases hunnamed
  | cached _ _ =>
    have hs := ((hanswers _ rfl).yields fun t _ => hp t).2
    rw [checkRequest_ok_iff.2 hs] at h
    cases h
  | refused _ _ hcheck =>
    rw [h] at hcheck
    obtain rfl := Except.error.inj hcheck
    rfl
  | failed _ _ hcheck _ => rw [h] at hcheck; cases hcheck
  | built _ _ hcheck _ => rw [h] at hcheck; cases hcheck

/-- **The stages in which a request fails**: its names, its inheritance, and building. -/
theorem resolve_error_cases (hc : c.Trusted r pending) (h : (c.resolve r names).1 = .error x) :
    checkNames names = .error x ∨ (checkNames names = .ok () ∧ r.checkRequest names = .error x) ∨
      (checkNames names = .ok () ∧ r.checkRequest names = .ok () ∧
        Refused r pending {n | n ∈ names} x) := by
  have hends := c.resolve_ends r names
  generalize c.resolve r names = out at hends h
  cases hends with
  | unnamed hnames =>
    obtain rfl := Except.error.inj h
    exact Or.inl hnames
  | cached _ _ => cases h
  | refused hnames _ hcheck =>
    obtain rfl := Except.error.inj h
    exact Or.inr (Or.inl ⟨hnames, hcheck⟩)
  | failed hnames _ hcheck hout =>
    obtain rfl := Except.error.inj h
    have hne := (checkNames_ok_iff.1 hnames).1
    obtain ⟨-, -, herr⟩ := build_spec (hc.keyFor names) hne (checkRequest_ok_iff.1 hcheck)
    exact Or.inr (Or.inr ⟨hnames, hcheck, herr _ hout⟩)
  | built _ _ _ _ => cases h

/-- With nothing pending, errors of inheritance are those of the check. -/
theorem resolve_eq_inheritanceError_iff (hc : c.Trusted r pending) (hp : ∀ t, t ∉ pending)
    (hx : x.OfInheritance) :
    (c.resolve r names).1 = .error x ↔ checkNames names = .ok () ∧ r.checkRequest names = .error x := by
  constructor
  · intro h
    rcases resolve_error_cases hc h with hnames | hcheck | ⟨-, -, hbuild, -⟩
    · exact absurd hx (checkNames_error hnames)
    · exact hcheck
    · exact absurd hbuild hx.not_ofBuilding
  · rintro ⟨hnames, hcheck⟩
    exact resolve_of_checkRequest hc hp hnames hcheck

/-- With nothing pending, a request whose names are good has an error of inheritance exactly if its
inheritance is unsound. -/
theorem exists_inheritanceError_iff (hc : c.Trusted r pending) (hp : ∀ t, t ∉ pending) :
    (∃ x : Error, x.OfInheritance ∧ (c.resolve r names).1 = .error x) ↔
      (names ≠ [] ∧ "" ∉ names) ∧ ¬ r.Sound {n | n ∈ names} := by
  rw [← checkNames_ok_iff, ← checkRequest_ok_iff]
  constructor
  · rintro ⟨x, hx, h⟩
    obtain ⟨hnames, hcheck⟩ := (resolve_eq_inheritanceError_iff hc hp hx).1 h
    exact ⟨hnames, by rw [hcheck]; simp⟩
  · rintro ⟨hnames, hcheck⟩
    cases h : r.checkRequest names with
    | ok u => exact absurd h hcheck
    | error x =>
      exact ⟨x, checkRequest_error h, resolve_of_checkRequest hc hp hnames h⟩

/-- With nothing pending, what fails over one cache fails over any other, in the same way unless both
errors are such that building can report them. -/
theorem exists_error (hc : c.Trusted r pending) (hp : ∀ t, t ∉ pending) (hc' : c'.Trusted r pending')
    (hp' : ∀ t, t ∉ pending') (h : (c.resolve r names).1 = .error x) :
    ∃ y, (c'.resolve r names).1 = .error y ∧
      (y = x ∨ (r.Reports {n | n ∈ names} x ∧ r.Reports {n | n ∈ names} y)) := by
  rcases resolve_error_cases hc h with hnames | ⟨hnames, hcheck⟩ | ⟨hnames, hcheck, hx⟩
  · exact ⟨x, resolve_of_checkNames c' hnames, Or.inl rfl⟩
  · exact ⟨x, resolve_of_checkRequest hc' hp' hnames hcheck, Or.inl rfl⟩
  · cases h' : (c'.resolve r names).1 with
    | ok res =>
      have hr := (resolve_ok_iff hc' hp').1 ⟨res, h'⟩
      obtain ⟨res', hres'⟩ := (resolve_ok_iff hc hp).2 hr
      rw [h] at hres'
      cases hres'
    | error y =>
      refine ⟨y, rfl, ?_⟩
      rcases resolve_error_cases hc' h' with hy | ⟨-, hy⟩ | ⟨-, -, hy⟩
      · rw [hnames] at hy; cases hy
      · rw [hcheck] at hy; cases hy
      · exact Or.inr ⟨hx.2 hp, hy.2 hp'⟩

end Cache

namespace Resolver

theorem resolve_eq_error_iff {s : Resolver} {names : List Name} {x : Error} :
    (s.resolve names).1 = .error x ↔ (s.cache.resolve s.registry names).1 = .error x := by
  show (s.cache.resolve s.registry names).1.map (·.type) = .error x ↔ _
  cases (s.cache.resolve s.registry names).1 <;> simp [Except.map]

/-! ### The cache hides no error of inheritance -/

/-- **The cache hides no error of inheritance.** After a run that leaves nothing pending, a request fails
with an error of inheritance exactly if it does so with nothing cached, and with the same error; and it
does so exactly if its names are good and the inheritance above them is unsound. -/
theorem inheritanceError_iff_fresh (r : Registry) (events : List Event) (names : List Name)
    (hp : ∀ n, ¬ (fresh r).Pending events n) :
    (∀ x : Error, x.OfInheritance → ((((fresh r).run events).resolve names).1 = .error x ↔
      ((fresh ((fresh r).run events).registry).resolve names).1 = .error x)) ∧
    ((∃ x : Error, x.OfInheritance ∧ (((fresh r).run events).resolve names).1 = .error x) ↔
      (names ≠ [] ∧ "" ∉ names) ∧ ¬ ((fresh r).run events).registry.Sound {n | n ∈ names}) := by
  have hc := trusted_run r events
  have hempty := Cache.trusted_empty ((fresh r).run events).registry ∅
  constructor
  · intro x hx
    rw [resolve_eq_error_iff, resolve_eq_error_iff, Cache.resolve_eq_inheritanceError_iff hc hp hx]
    exact (Cache.resolve_eq_inheritanceError_iff hempty (fun _ h => h) hx).symm
  · simp only [resolve_eq_error_iff]
    exact Cache.exists_inheritanceError_iff hc hp

/-- After pages were cached, the base of pages is made a page. -/
def circular : List Event :=
  [.resolve ["page", "draft"], .register { name := "base", supertypes := ["page"] }, .invalidate "base"]

theorem not_pending_circular (n : Name) : ¬ (fresh pages).Pending circular n := by
  show ¬ (fresh pages).Pending ([] ++ [_] ++ [_] ++ [_]) n
  rw [pending_concat, pending_concat, pending_concat]
  simp [not_pending_nil, Changes, eq_comm]

/-- Drafts are cached still, but a page that is a draft is refused as it would be with nothing cached. -/
theorem inheritanceError_iff_fresh_circular :
    ((fresh pages).run circular).cache.size = 1 ∧
    (((fresh pages).run circular).resolve ["page", "draft"]).1 = .error (.inheritanceCycle "page") ∧
      ((fresh ((fresh pages).run circular).registry).resolve ["page", "draft"]).1 =
        .error (.inheritanceCycle "page") ∧
      ¬ ((fresh pages).run circular).registry.Sound {n | n ∈ ["page", "draft"]} := by
  obtain ⟨hiff, hsound⟩ := inheritanceError_iff_fresh pages circular ["page", "draft"] not_pending_circular
  have hfresh : ((fresh ((fresh pages).run circular).registry).resolve ["page", "draft"]).1 =
      .error (.inheritanceCycle "page") := by decide +kernel
  have herr := (hiff _ (.cycle "page")).2 hfresh
  exact ⟨by decide +kernel, herr, hfresh, (hsound.1 ⟨_, .cycle "page", herr⟩).2⟩

/-! ### Errors of building -/

/-- Folders and galleries both have a cover. -/
def covers : Registry := registerAll {}
  [({ name := "folder" } : Declaration).withChildNode "cover" [],
    ({ name := "gallery" } : Declaration).withChildNode "cover" []]

/-- **The error depends on the history.** A request for a folder that is a gallery fails in one way the
first time and in another the second time. -/
theorem error_depends_on_history :
    ¬ ∀ (r : Registry) (history₁ history₂ : List (List Name)) (names : List Name) (x : Error),
      (((fresh r).run (requests history₁)).resolve names).1 = .error x →
      (((fresh r).run (requests history₂)).resolve names).1 = .error x := by
  intro h
  have hfirst : (((fresh covers).run (requests [])).resolve ["folder", "gallery"]).1 =
      .error (.conflict (.childNode "cover" "gallery" "folder")) := by decide +kernel
  have hsecond : (((fresh covers).run (requests [["folder", "gallery"]])).resolve
      ["folder", "gallery"]).1 = .error (.conflict (.childNode "cover" "folder" "gallery")) := by
    decide +kernel
  have hsame := h covers [] [["folder", "gallery"]] _ _ hfirst
  rw [hsecond] at hsame
  exact absurd hsame (by decide)

/-- **What histories cannot change about a failure.** A request that fails after one history of requests
fails after every other, and in the same way, unless both errors are such that building can report them
from the declarations. -/
theorem error_unless_reported {r : Registry} {history₁ history₂ : List (List Name)} {names : List Name}
    {x : Error} (h : (((fresh r).run (requests history₁)).resolve names).1 = .error x) :
    ∃ y, (((fresh r).run (requests history₂)).resolve names).1 = .error y ∧
      (y = x ∨ (r.Reports {n | n ∈ names} x ∧ r.Reports {n | n ∈ names} y)) := by
  simp only [resolve_eq_error_iff, registry_run_requests] at h ⊢
  exact Cache.exists_error (trusted_requests r history₁) (fun _ h => h) (trusted_requests r history₂)
    (fun _ h => h) h

/-- A request for a folder and an unknown type is refused for the unknown type, whatever came before. -/
theorem error_unless_reported_covers :
    (((fresh covers).run (requests [])).resolve ["folder", "shelf"]).1 = .error (.noSuchType "shelf") ∧
      (((fresh covers).run (requests [["folder", "gallery"]])).resolve ["folder", "shelf"]).1 =
        .error (.noSuchType "shelf") := by
  have hfirst : (((fresh covers).run (requests [])).resolve ["folder", "shelf"]).1 =
      .error (.noSuchType "shelf") := by decide +kernel
  obtain ⟨y, hy, heq⟩ : ∃ y, (((fresh covers).run (requests [["folder", "gallery"]])).resolve
      ["folder", "shelf"]).1 = .error y ∧ (y = .noSuchType "shelf" ∨
        (covers.Reports {n | n ∈ ["folder", "shelf"]} (.noSuchType "shelf") ∧
          covers.Reports {n | n ∈ ["folder", "shelf"]} y)) := error_unless_reported hfirst
  have hno : ¬ covers.Reports {n | n ∈ ["folder", "shelf"]} (.noSuchType "shelf") := fun hr =>
    (Error.OfInheritance.noSuchType "shelf").not_ofBuilding hr.ofBuilding
  obtain rfl := heq.resolve_right fun hr => hno hr.1
  exact ⟨hfirst, hy⟩

end Resolver

end ContentTypes
