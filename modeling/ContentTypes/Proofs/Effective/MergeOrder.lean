import Mathlib.Data.List.Pairwise
import ContentTypes.Proofs.Effective.Merge

/-! # Merging in any order

A `MergeTree` says how to merge the types of some members of a family of declarations: in which order, how
nested, as types beside each other or as supertypes, each member as often as one likes. Only the members
matter to whether this succeeds, to the types that come out and to their definitions
(`type_order_irrelevant`).

The invariant of the induction on the tree is `Unites`: a type holds the definitions of the members used,
all of them and each once. Two such types can be merged exactly if no definition of a member on one side
clashes with one of another member on the other side (`exists_merge_iff`). A merge compares fewer pairs than
that, for it skips the definitions of types that the receiver includes; but these are held by the receiver
already. -/

namespace ContentTypes

open EffectiveType

/-- A way of merging the types of declarations, of which `ι` are the members. -/
inductive MergeTree (ι : Type) where
  | declared (i : ι)
  | merged (kind : MergeKind) (left right : MergeTree ι)

namespace MergeTree

variable {ι : Type}

/-- The members merged, from left to right and with repetitions. -/
def members : MergeTree ι → List ι
  | .declared i => [i]
  | .merged _ left right => left.members ++ right.members

/-- The type that comes out, or the first error. -/
def type (family : ι → Declaration) : MergeTree ι → Except Error EffectiveType
  | .declared i => ofDeclaration (family i)
  | .merged kind left right => do
    let e ← left.type family
    let o ← right.type family
    (e.merge o kind).mapError .conflict

variable {family : ι → Declaration} {l l' : List ι} {i j : ι} {x y : MergeTree ι} {e o m : EffectiveType}
  {kind : MergeKind}

/-- No definition of a member of `l` clashes with one of another member, of `l'`. -/
def Apart (family : ι → Declaration) (l l' : List ι) : Prop :=
  ∀ i ∈ l, ∀ j ∈ l', i ≠ j → ∀ c ∈ (family i).items, ∀ d ∈ (family j).items, ¬ c.Clashes d

/-- **Members that can be merged**: the declaration of each is taken, and no definition of one clashes with a
definition of another. -/
structure Mergeable (family : ι → Declaration) (l : List ι) : Prop where
  taken : ∀ i ∈ l, ∃ e, ofDeclaration (family i) = .ok e
  apart : Apart family l l

/-- **A type that unites members**: its types are their names, and it holds the definitions of each of them,
no definition twice. -/
structure Unites (family : ι → Declaration) (l : List ι) (e : EffectiveType) : Prop where
  types : ∀ n, n ∈ e.allTypes ↔ ∃ i ∈ l, (family i).name = n
  definitions : ∀ d, d ∈ e.definitions ↔ ∃ i ∈ l, d ∈ (family i).items
  nodup : e.definitions.Nodup

/-- Trees that cannot be told apart by whether they give a type, by the types in it and by its definitions. -/
structure Equivalent (family : ι → Declaration) (x y : MergeTree ι) : Prop where
  succeeds : (∃ e, x.type family = .ok e) ↔ ∃ o, y.type family = .ok o
  types : ∀ e o, x.type family = .ok e → y.type family = .ok o → e.allTypes = o.allTypes
  definitions : ∀ e o, x.type family = .ok e → y.type family = .ok o → e.definitions.Perm o.definitions

/-! ### Single declarations -/

theorem declaringType_of_taken {d : Declaration} (h : ofDeclaration d = .ok e) :
    ∀ c ∈ d.items, c.declaringType = d.name :=
  (ofDeclaration_ok_iff.1 h).2.1

theorem mem_definitions_ofDeclaration_iff {d : Declaration} (h : ofDeclaration d = .ok e) (c : ItemDef) :
    c ∈ e.definitions ↔ c ∈ d.items := by
  have hunder : e.under c.name = d.items.filter (·.name = c.name) := by
    obtain ⟨-, -, -, rfl⟩ := ofDeclaration_ok_iff.1 h
    rw [under_pushAll, under_bare, List.nil_append]
  rw [(wellFormed_ofDeclaration h).mem_definitions, hunder, List.mem_filter]
  simp

theorem unites_ofDeclaration (h : ofDeclaration (family i) = .ok e) : Unites family [i] e := by
  have htypes : e.allTypes = .singleton (family i).name := by
    obtain ⟨-, -, -, rfl⟩ := ofDeclaration_ok_iff.1 h
    rw [allTypes_pushAll, bare]
  refine ⟨fun n => ?_, fun c => ?_, (wellFormed_ofDeclaration h).nodup_definitions⟩
  · rw [htypes, NameSet.mem_singleton]
    simp [eq_comm]
  · rw [mem_definitions_ofDeclaration_iff h]
    simp

/-! ### One merge -/

/-- Two definitions that are held do not clash. -/
theorem not_clashes_of_held (he : e.WellFormed) {c d : ItemDef} (hc : c ∈ e.definitions)
    (hd : d ∈ e.definitions) (hne : c ≠ d) : ¬ c.Clashes d := by
  have hmem : ∀ {d : ItemDef}, d ∈ e.definitions → d ∈ e.named.items ++ e.residual := fun hd =>
    List.perm_append_comm.mem_iff.1 hd
  exact he.compatible_all.forall (hmem hc) (hmem hd) hne

theorem mem_definitions_merge (he : e.WellFormed) (ho : o.WellFormed) (h : e.merge o kind = .ok m)
    (d : ItemDef) : d ∈ m.definitions ↔
      d ∈ e.definitions ∨ (d ∈ o.definitions ∧ d.declaringType ∉ e.allTypes) := by
  rw [(he.merge ho h).mem_definitions, he.mem_definitions, ho.mem_definitions,
    (merges_of_merge he.toTidy ho h).under, List.mem_append, List.mem_filter]
  simp

section Members
variable (hnames : ∀ i j, (family i).name = (family j).name → i = j)
include hnames

/-- A member of a united type is the one that declares its definitions. -/
theorem Unites.mem_of_name (he : Unites family l e) (hi : (family i).name ∈ e.allTypes) : i ∈ l := by
  obtain ⟨j, hj, hji⟩ := (he.types _).1 hi
  rw [← hnames j i hji]
  exact hj

/-- **Merging united types** gives a united type. -/
theorem Unites.merge (he : e.WellFormed) (ho : o.WellFormed) (hue : Unites family l e)
    (huo : Unites family l' o) (htaken : ∀ j ∈ l', ∀ d ∈ (family j).items, d.declaringType = (family j).name)
    (h : e.merge o kind = .ok m) : Unites family (l ++ l') m := by
  have hmerges := merges_of_merge he.toTidy ho h
  refine ⟨fun n => ?_, fun d => ?_, (he.merge ho h).nodup_definitions⟩
  · rw [hmerges.all_iff, hue.types, huo.types]
    simp only [List.mem_append, or_and_right, exists_or]
  · rw [mem_definitions_merge he ho h, hue.definitions, huo.definitions]
    constructor
    · rintro (⟨i, hi, hd⟩ | ⟨⟨j, hj, hd⟩, -⟩)
      · exact ⟨i, List.mem_append_left _ hi, hd⟩
      · exact ⟨j, List.mem_append_right _ hj, hd⟩
    · rintro ⟨j, hj, hd⟩
      rcases List.mem_append.1 hj with hj | hj
      · exact Or.inl ⟨j, hj, hd⟩
      · by_cases hskip : d.declaringType ∈ e.allTypes
        · rw [htaken j hj d hd] at hskip
          exact Or.inl ⟨j, hue.mem_of_name hnames hskip, hd⟩
        · exact Or.inr ⟨⟨j, hj, hd⟩, hskip⟩

/-- **When united types can be merged.** -/
theorem exists_merge_iff (he : e.WellFormed) (ho : o.WellFormed) (hue : Unites family l e)
    (huo : Unites family l' o) (htaken : ∀ j ∈ l ++ l', ∀ d ∈ (family j).items,
      d.declaringType = (family j).name) :
    (∃ m, e.merge o kind = .ok m) ↔ Apart family l l' := by
  have hown : ∀ {j d}, j ∈ l ++ l' → d ∈ (family j).items → d.declaringType = (family j).name :=
    fun hj hd => htaken _ hj _ hd
  have hfail : (∃ m, e.merge o kind = .ok m) ↔ ¬ ∃ c, e.merge o kind = .error c := by
    cases e.merge o kind <;> simp
  rw [hfail, merge_error_iff he.toTidy ho]
  constructor
  · intro hno i hi j hj hij c hc d hd hcd
    have hcl : c.declaringType = (family i).name := hown (List.mem_append_left _ hi) hc
    have hdl : d.declaringType = (family j).name := hown (List.mem_append_right _ hj) hd
    have hce : c ∈ e.definitions := (hue.definitions c).2 ⟨i, hi, hc⟩
    by_cases hskip : d.declaringType ∈ e.allTypes
    · -- the receiver holds both
      have hjl : j ∈ l := hue.mem_of_name hnames (hdl ▸ hskip)
      have hde : d ∈ e.definitions := (hue.definitions d).2 ⟨j, hjl, hd⟩
      refine not_clashes_of_held he hce hde (fun heq => hij (hnames i j ?_)) hcd
      rw [← hcl, ← hdl, heq]
    · exact hno ⟨d, (huo.definitions d).2 ⟨j, hj, hd⟩, hskip, c, hce, hcd.symm⟩
  · rintro hapart ⟨d, hd, hnew, c, hc, hdc⟩
    obtain ⟨j, hj, hdj⟩ := (huo.definitions d).1 hd
    obtain ⟨i, hi, hci⟩ := (hue.definitions c).1 hc
    refine hapart i hi j hj (fun hij => hnew ?_) c hci d hdj hdc.symm
    rw [hown (List.mem_append_right _ hj) hdj, ← hij]
    exact (hue.types _).2 ⟨i, hi, rfl⟩

end Members

/-! ### Whole trees -/

theorem type_merged_ok_iff : (merged kind x y).type family = .ok m ↔
    ∃ e, x.type family = .ok e ∧ ∃ o, y.type family = .ok o ∧ e.merge o kind = .ok m := by
  rw [type, bind_ok_iff]
  refine exists_congr fun e => and_congr_right fun _ => ?_
  rw [bind_ok_iff]
  refine exists_congr fun o => and_congr_right fun _ => ?_
  cases e.merge o kind <;> simp [Except.mapError]

theorem built_of_type : ∀ {x : MergeTree ι} {e : EffectiveType}, x.type family = .ok e → Built e
  | .declared _, _, h => .ofDeclaration h
  | .merged _ _ _, _, h => by
    obtain ⟨e, he, o, ho, hm⟩ := type_merged_ok_iff.1 h
    exact (built_of_type he).merge (built_of_type ho) hm

theorem taken_of_type : ∀ {x : MergeTree ι} {e : EffectiveType}, x.type family = .ok e →
    ∀ i ∈ x.members, ∃ o, ofDeclaration (family i) = .ok o
  | .declared i, e, h, j, hj => by
    rw [List.mem_singleton.1 hj]
    exact ⟨e, h⟩
  | .merged _ _ _, _, h, j, hj => by
    obtain ⟨e, he, o, ho, -⟩ := type_merged_ok_iff.1 h
    rcases List.mem_append.1 hj with hj | hj
    · exact taken_of_type he j hj
    · exact taken_of_type ho j hj

theorem own_of_type (h : x.type family = .ok e) :
    ∀ i ∈ x.members, ∀ d ∈ (family i).items, d.declaringType = (family i).name := by
  intro i hi
  obtain ⟨o, ho⟩ := taken_of_type h i hi
  exact declaringType_of_taken ho

theorem Apart.symm (h : Apart family l l') : Apart family l' l :=
  fun i hi j hj hij c hc d hd hcd => h j hj i hi hij.symm d hd c hc hcd.symm

theorem mergeable_append : Mergeable family (l ++ l') ↔
    Mergeable family l ∧ Mergeable family l' ∧ Apart family l l' := by
  constructor
  · rintro ⟨htaken, hapart⟩
    refine ⟨⟨fun i hi => ?_, fun i hi j hj => ?_⟩, ⟨fun i hi => ?_, fun i hi j hj => ?_⟩, fun i hi j hj => ?_⟩
    · exact htaken i (List.mem_append_left _ hi)
    · exact hapart i (List.mem_append_left _ hi) j (List.mem_append_left _ hj)
    · exact htaken i (List.mem_append_right _ hi)
    · exact hapart i (List.mem_append_right _ hi) j (List.mem_append_right _ hj)
    · exact hapart i (List.mem_append_left _ hi) j (List.mem_append_right _ hj)
  · rintro ⟨h, h', hapart⟩
    refine ⟨fun i hi => ?_, fun i hi j hj => ?_⟩
    · rcases List.mem_append.1 hi with hi | hi
      · exact h.taken i hi
      · exact h'.taken i hi
    · rcases List.mem_append.1 hi with hi | hi <;> rcases List.mem_append.1 hj with hj | hj
      · exact h.apart i hi j hj
      · exact hapart i hi j hj
      · exact hapart.symm i hi j hj
      · exact h'.apart i hi j hj

section Trees
variable (hnames : ∀ i j, (family i).name = (family j).name → i = j)
include hnames

/-- A tree that succeeds unites its members. -/
theorem unites_of_type : ∀ {x : MergeTree ι} {e : EffectiveType}, x.type family = .ok e →
    Unites family x.members e
  | .declared _, _, h => unites_ofDeclaration h
  | .merged _ _ _, _, h => by
    obtain ⟨e, he, o, ho, hm⟩ := type_merged_ok_iff.1 h
    exact (unites_of_type he).merge hnames (built_of_type he).wellFormed (built_of_type ho).wellFormed
      (unites_of_type ho) (own_of_type ho) hm

/-- **A tree succeeds** exactly if its members can be merged. -/
theorem exists_type_iff (x : MergeTree ι) : (∃ e, x.type family = .ok e) ↔ Mergeable family x.members := by
  induction x with
  | declared i =>
    have happart : Apart family [i] [i] := fun j hj k hk hjk =>
      absurd ((List.mem_singleton.1 hj).trans (List.mem_singleton.1 hk).symm) hjk
    constructor
    · rintro ⟨e, he⟩
      exact ⟨taken_of_type he, happart⟩
    · exact fun h => h.taken i (List.mem_singleton_self i)
  | merged kind x y ihx ihy =>
    have hcross : ∀ {e o}, x.type family = .ok e → y.type family = .ok o →
        ((∃ m, e.merge o kind = .ok m) ↔ Apart family x.members y.members) := fun he ho => by
      refine exists_merge_iff hnames (built_of_type he).wellFormed (built_of_type ho).wellFormed
        (unites_of_type hnames he) (unites_of_type hnames ho) fun j hj => ?_
      rcases List.mem_append.1 hj with hj | hj
      · exact own_of_type he j hj
      · exact own_of_type ho j hj
    rw [members, mergeable_append, ← ihx, ← ihy]
    constructor
    · rintro ⟨m, h⟩
      obtain ⟨e, he, o, ho, hm⟩ := type_merged_ok_iff.1 h
      exact ⟨⟨e, he⟩, ⟨o, ho⟩, (hcross he ho).1 ⟨m, hm⟩⟩
    · rintro ⟨⟨e, he⟩, ⟨o, ho⟩, hapart⟩
      obtain ⟨m, hm⟩ := (hcross he ho).2 hapart
      exact ⟨m, type_merged_ok_iff.2 ⟨e, he, o, ho, hm⟩⟩

theorem equivalent_of_members (h : ∀ i, i ∈ x.members ↔ i ∈ y.members) : Equivalent family x y := by
  have hmergeable : Mergeable family x.members ↔ Mergeable family y.members := by
    constructor
    · exact fun hx => ⟨fun i hi => hx.taken i ((h i).2 hi),
        fun i hi j hj => hx.apart i ((h i).2 hi) j ((h j).2 hj)⟩
    · exact fun hy => ⟨fun i hi => hy.taken i ((h i).1 hi),
        fun i hi j hj => hy.apart i ((h i).1 hi) j ((h j).1 hj)⟩
  have hex : ∀ {p : ι → Prop}, (∃ i ∈ x.members, p i) ↔ ∃ i ∈ y.members, p i :=
    exists_congr fun i => and_congr_left fun _ => h i
  refine ⟨?_, fun e o he ho => NameSet.ext_mem fun n => ?_, fun e o he ho => ?_⟩
  · rw [exists_type_iff hnames, exists_type_iff hnames, hmergeable]
  · rw [(unites_of_type hnames he).types, (unites_of_type hnames ho).types, hex]
  · have hue := unites_of_type hnames he
    have huo := unites_of_type hnames ho
    refine (List.perm_ext_iff_of_nodup hue.nodup huo.nodup).2 fun d => ?_
    rw [hue.definitions, huo.definitions, hex]

/-- **The order of merging is irrelevant.** For declarations of different names, merging types in whatever
way succeeds exactly if every declaration used is taken and no definition of one clashes with a definition of
another, and then the types are the names used and the definitions those declared, each once. So ways of
merging that use the same declarations are equivalent; in particular merging is commutative, associative and
idempotent. -/
theorem type_order_irrelevant (x : MergeTree ι) :
    ((∃ e, x.type family = .ok e) ↔ Mergeable family x.members) ∧
    (∀ e, x.type family = .ok e → Unites family x.members e) ∧
    (∀ y, (∀ i, i ∈ x.members ↔ i ∈ y.members) → Equivalent family x y) ∧
    (∀ kind kind' y, Equivalent family (.merged kind x y) (.merged kind' y x)) ∧
    (∀ k₁ k₂ k₃ k₄ y z, Equivalent family (.merged k₁ (.merged k₂ x y) z) (.merged k₃ x (.merged k₄ y z))) ∧
    ∀ kind, Equivalent family (.merged kind x x) x := by
  refine ⟨exists_type_iff hnames x, fun e he => unites_of_type hnames he,
    fun y h => equivalent_of_members hnames h, fun kind kind' y => ?_, fun k₁ k₂ k₃ k₄ y z => ?_,
    fun kind => ?_⟩
  · exact equivalent_of_members hnames fun i => by simp [members, or_comm]
  · exact equivalent_of_members hnames fun i => by simp [members]
  · exact equivalent_of_members hnames fun i => by simp [members]

end Trees

/-- A leaflet and a poster, each with a title, and a plain sheet. -/
def prints : Fin 3 → Declaration
  | 0 => ({ name := "leaflet" } : Declaration).withProperty "title" .string
  | 1 => ({ name := "poster" } : Declaration).withProperty "title" .string
  | 2 => ({ name := "sheet" } : Declaration).withProperty "width" .long

/-- A leaflet can be merged with a sheet that has a leaflet as supertype, but not with one that has a poster
as supertype. -/
theorem type_order_irrelevant_prints :
    (∀ i j, (prints i).name = (prints j).name → i = j) ∧
    (∃ e, (merged .aggregate (.declared 0) (.merged .supertype (.declared 2) (.declared 0))).type prints =
      .ok e ∧ Unites prints [0, 2, 0] e) ∧
    ¬ ∃ e, (merged .aggregate (.declared 0) (.merged .supertype (.declared 2) (.declared 1))).type prints =
      .ok e := by
  have hnames : ∀ i j, (prints i).name = (prints j).name → i = j := by decide
  refine ⟨hnames, ?_, fun h => ?_⟩
  · obtain ⟨e, he⟩ : ∃ e, (merged .aggregate (.declared 0)
        (.merged .supertype (.declared 2) (.declared 0))).type prints = .ok e := ⟨_, rfl⟩
    obtain ⟨-, hunites, -⟩ := type_order_irrelevant hnames _
    exact ⟨e, he, hunites e he⟩
  · obtain ⟨hiff, -⟩ := type_order_irrelevant hnames
      (merged .aggregate (.declared 0) (.merged .supertype (.declared 2) (.declared 1)))
    refine (hiff.1 h).apart 0 (by decide) 1 (by decide) (by decide) _ (List.mem_singleton_self _) _
      (List.mem_singleton_self _) ⟨rfl, ?_⟩
    -- both titles are single strings
    exact Or.inr (Or.inr (Or.inr (by decide)))

end MergeTree

end ContentTypes
