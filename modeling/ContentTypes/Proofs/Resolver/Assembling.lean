import ContentTypes.Proofs.Cache.Coherent
import ContentTypes.Proofs.Cache.Splitting
import ContentTypes.Proofs.Resolver.Request

/-! # What an answer is assembled from

A request splits its names along what is cached when it is made, and merges the types taken off, and then
the types of the names that remain, in ascending order. What is cached on the way makes no difference: it
merges names that have been taken off already. So the head of an answer, its merged types, all its types
and its supported mixins, is fixed by what was cached and by the set of names (`Assembled.head_eq`).

The induction is on the rounds of the splitting; `Splitting` is the invariant that carries it. -/

namespace ContentTypes

open Registry Visit Build EffectiveType Contract

/-! ### Heads -/

/-- What is merged from the heads of two types alone. -/
structure Head where
  merged : NameSet
  all : NameSet
  mixins : Option NameSet

def EffectiveType.head (e : EffectiveType) : Head := ⟨e.mergedTypes, e.allTypes, e.supportedMixins⟩

namespace Head

/-- The head of a merge. -/
def join (a b : Head) : Head :=
  if b.all.within a.all then a
  else { a with merged := a.merged ∪ b.merged, all := a.all ∪ b.all }

/-- A head merged into what there is so far. -/
def next : Option Head → Head → Head
  | none, b => b
  | some a, b => a.join b

/-- Heads merged one after the other. -/
def joinAll (a : Option Head) (l : List Head) : Option Head := l.foldl (fun a b => some (next a b)) a

theorem joinAll_cons (a : Option Head) (b : Head) (l : List Head) :
    joinAll a (b :: l) = joinAll (some (next a b)) l := rfl

theorem joinAll_append (a : Option Head) (l l' : List Head) :
    joinAll a (l ++ l') = joinAll (joinAll a l) l' :=
  List.foldl_append

end Head

theorem head_of_merge {e o m : EffectiveType} (h : e.merge o .aggregate = .ok m) :
    m.head = e.head.join o.head := by
  unfold merge at h
  split at h
  · next hall =>
    obtain rfl := Except.ok.inj h
    exact (if_pos hall).symm
  · next hall =>
    cases hadd : e.addItems (e.incoming o) with
    | error c => rw [hadd] at h; cases h
    | ok e' =>
      rw [hadd] at h
      obtain rfl := Except.ok.inj h
      obtain rfl := eq_pushAll_of_addItems hadd
      refine Eq.trans ?_ (if_neg hall).symm
      simp [head, joinTypes]

/-- Types of a single name have the same head. -/
theorem head_eq_of_single {r : Registry} {n : Name} {e o : EffectiveType} (he : Built e) (ho : Built o)
    (hye : r.Yields {n} e) (hyo : r.Yields {n} o) : e.head = o.head := by
  have hmerged : ∀ {e : EffectiveType}, Built e → r.Yields {n} e → e.mergedTypes = .singleton n :=
    fun he hy => Cache.mergedTypes_eq_singleton he.wellFormed hy.merged_mem
  have hmixins : ∀ {e : EffectiveType}, r.Yields {n} e → ∃ d, r.find? n = some d ∧
      e.supportedMixins = d.supportedMixins.map .ofList := fun hy => by
    obtain ⟨m, hm, h⟩ := hy.mixins
    rwa [hy.merged_mem m hm] at h
  obtain ⟨d, hd, hed⟩ := hmixins hye
  obtain ⟨d', hd', hod⟩ := hmixins hyo
  rw [hd] at hd'
  obtain rfl := Option.some.inj hd'
  have hall : e.allTypes = o.allTypes := NameSet.ext_mem fun t => by rw [hye.all_iff, hyo.all_iff]
  rw [head, head, hmerged he hye, hmerged ho hyo, hall, hed, hod]

theorem map_head_eq_of_singles {r : Registry} : ∀ {names : List Name} {l l' : List EffectiveType},
    List.Forall₂ (fun n o => Built o ∧ r.Yields {n} o) names l →
    List.Forall₂ (fun n o => Built o ∧ r.Yields {n} o) names l' → l.map head = l'.map head
  | [], _, _, .nil, .nil => rfl
  | _ :: _, _, _, .cons ho h, .cons ho' h' => by
    rw [List.map_cons, List.map_cons, head_eq_of_single ho.1 ho'.1 ho.2 ho'.2,
      map_head_eq_of_singles h h']

/-! ### Assembled types -/

/-- **A type assembled from what is cached**: the set of names is split along the rows, and the head of the
type is merged from the types taken off and types of the single names that remain. -/
def Assembled (rows : List (NameSet × EffectiveType)) (r : Registry) (names : NameSet)
    (e : EffectiveType) : Prop :=
  ∃ types rest singles, Cache.Splits rows names types rest ∧
    List.Forall₂ (fun n o => Built o ∧ r.Yields {n} o) rest.toList singles ∧
    some e.head = Head.joinAll none ((types ++ singles).map head)

variable {rows : List (NameSet × EffectiveType)} {r : Registry} {names : NameSet} {e e' : EffectiveType}

/-- **What is assembled from the same rows has the same head.** -/
theorem Assembled.head_eq (h : Assembled rows r names e) (h' : Assembled rows r names e') :
    e.head = e'.head := by
  obtain ⟨types, rest, singles, hsplits, hsingles, hhead⟩ := h
  obtain ⟨types', rest', singles', hsplits', hsingles', hhead'⟩ := h'
  obtain ⟨rfl, rfl⟩ := hsplits.unique hsplits'
  rw [List.map_append, map_head_eq_of_singles hsingles hsingles', ← List.map_append, ← hhead'] at hhead
  exact Option.some.inj hhead

/-- What is cached under the names themselves. -/
theorem Assembled.of_holds {c : Cache} (ho : c.Ordered) (hc : c.Keyed)
    (hrows : ∀ names type, (names, type) ∈ c.rows → ∃ n, n ∈ names) (h : c.Holds names e) :
    Assembled c.rows r names e := by
  obtain ⟨rest, hsplits, hrest⟩ := Cache.Splits.of_holds ho hc hrows h
  refine ⟨[e], rest, [], hsplits, ?_, rfl⟩
  rw [hrest]
  exact .nil

namespace Build

variable {pending s done : Set Name} {st : State Cache} {remaining best : Key} {type : EffectiveType}
  {result : Option EffectiveType} {n : Name} {build : Name → Build EffectiveType} {g : VisitGuard Name}

/-! ### Splitting -/

/-- Merging into the result so far touches the cache at most under the merged types of what it gives. -/
theorem after_mergeNext (result : Option EffectiveType) (type : EffectiveType) (st : State Cache) :
    After (mergeNext result type) st (fun m st' => m.head = Head.next (result.map head) type.head ∧
      (st' = st ∨ st' = (st.1, (st.2.putMerged m).2))) fun _ _ => True := by
  cases result with
  | none => exact ⟨rfl, Or.inl rfl⟩
  | some e =>
    cases hm : e.merge type .aggregate with
    | error c =>
      simp only [mergeNext, merged, hm]
      exact trivial
    | ok m =>
      simp only [mergeNext, merged, hm]
      exact ⟨head_of_merge hm, Or.inr rfl⟩

/-- **Where splitting stands**: the rows within what remains are those of the start, and nothing that
remains is done. -/
structure Splitting (r : Registry) (pending s : Set Name) (rows : List (NameSet × EffectiveType))
    (remaining : Key) (result : Option EffectiveType) (done : Set Name) (st : State Cache) : Prop where
  standing : Standing r pending s st
  ordered : st.2.Ordered
  numbered : remaining.Numbered st.2.numbering
  same : Cache.SameWithin remaining.names st.2.rows rows
  soFar : SoFar (r.Answers pending) done result
  apart : ∀ n ∈ done, n ∉ remaining.names

/-- **A round of splitting** merges the largest cached subset in and takes it off. -/
theorem Splitting.step (hs : r.Sound s) (hp : ∀ t, t ∉ pending)
    (h : Splitting r pending s rows remaining result done st)
    (hsub : done ∪ {n | n ∈ best.names} ⊆ r.closure s)
    (hbest : ((st.2.findBest? remaining).bind fun best => (st.2.get? best).map (best, ·)) =
      some (best, type)) :
    Ensures r pending s (mergeNext result type) st fun m st' =>
      m.head = Head.next (result.map head) type.head ∧
        Splitting r pending s rows (remaining.subtract best) (some m) (done ∪ {n | n ∈ best.names})
          st' := by
  have hkeyed := h.standing.trusted.keyed
  obtain ⟨hnum, -, hholds⟩ := Cache.holds_of_largest hkeyed h.numbered hbest
  have hless : ∀ n ∈ (remaining.subtract best).names, n ∈ remaining.names ∧ n ∉ best.names :=
    fun n hn => NameSet.mem_diff.1 hn
  have hans := h.standing.trusted.answers hholds
  refine After.mono ((ensures_mergeNext hs h.standing hsub h.soFar hans).and
    (after_mergeNext result type st)) (fun m st' hm => ?_) fun _ _ hx => hx
  obtain ⟨hst', hl, hm, hhead, hstate⟩ := hm
  have hapart : ∀ n ∈ done ∪ {n | n ∈ best.names}, n ∉ (remaining.subtract best).names := by
    rintro n (hn | hn) hremains
    · exact h.apart n hn (hless n hremains).1
    · exact (hless n hremains).2 hn
  have hsame := h.same.mono fun n hn => (hless n hn).1
  refine ⟨hst', hl, hhead, hst', ?_, (h.numbered.subtract hkeyed.valid hnum).mono hl.grows, ?_, hm, hapart⟩
  · rcases hstate with rfl | rfl
    · exact h.ordered
    · exact Cache.Ordered.put (c := (st.2.keyFor m.mergedTypes.toList).2) h.ordered _ m
  · rcases hstate with rfl | rfl
    · exact hsame
    · -- what is put merges a name that is done
      obtain ⟨n, hn⟩ := hm.built.wellFormed.merged
      have hdone := (hm.yields fun t _ => hp t).1.merged_mem n hn
      exact (Cache.SameWithin.putMerged hkeyed ⟨n, hn, hapart n hdone⟩).trans hsame

/-- **Splitting** the names of a key along the rows of the start. -/
theorem ensures_splitting (hs : r.Sound s) (hp : ∀ t, t ∉ pending)
    (hrows : ∀ names type, (names, type) ∈ rows → ∃ n, n ∈ names) : ∀ (rounds : Nat) {remaining : Key}
      {result : Option EffectiveType} {done : Set Name} {st : State Cache},
      Splitting r pending s rows remaining result done st →
      done ∪ {n | n ∈ remaining.names} ⊆ r.closure s → remaining.size ≤ rounds →
    Ensures r pending s (mergeSubsets rounds remaining result) st fun out _ =>
      ∃ types, Cache.Splits rows remaining.names types out.1.names ∧
        out.2.map head = Head.joinAll (result.map head) (types.map head) := by
  intro rounds
  induction rounds with
  | zero =>
    intro remaining result done st h hsub hsize
    have hempty : remaining.isEmpty = true := beq_iff_eq.2 (Nat.le_zero.1 hsize)
    exact ensures_pure h.standing ⟨[], .of_empty hrows ((Key.isEmpty_iff h.numbered).1 hempty), rfl⟩
  | succ rounds ih =>
    intro remaining result done st h hsub hsize
    unfold mergeSubsets
    split
    · next hempty =>
      exact ensures_pure h.standing ⟨[], .of_empty hrows ((Key.isEmpty_iff h.numbered).1 hempty), rfl⟩
    · refine ensures_read ?_
      have hkeyed := h.standing.trusted.keyed
      split
      · next hnone =>
        have hfind := Cache.find?_rows_eq_none hkeyed h.numbered hnone
        rw [h.same.find?_eq] at hfind
        exact ensures_pure h.standing ⟨[], .rest hfind, rfl⟩
      · next best type hbest =>
        have hfind := Cache.find?_rows_of_largest h.ordered hkeyed h.numbered hbest
        rw [h.same.find?_eq] at hfind
        obtain ⟨hnum, hwithin, hholds⟩ := Cache.holds_of_largest hkeyed h.numbered hbest
        have hcover : done ∪ {n | n ∈ best.names} ⊆ r.closure s := fun n hn =>
          hsub (hn.imp id (hwithin n))
        refine (h.step hs hp hcover hbest).bind fun m st' _ _ hm => ?_
        obtain ⟨hhead, hstep⟩ := hm
        -- what is cached has a name, which is taken off
        obtain ⟨n, hn⟩ := h.standing.trusted.nonempty hholds
        have hsmaller : (remaining.subtract best).size < remaining.size :=
          Key.size_subtract_lt hkeyed.valid h.numbered hnum (hwithin n hn) hn
        have hsub' : done ∪ {n | n ∈ best.names} ∪ {n | n ∈ (remaining.subtract best).names} ⊆
            r.closure s := by
          rintro n (hn | hn)
          · exact hcover hn
          · exact hsub (Or.inr (NameSet.mem_diff.1 hn).1)
        refine (ih hstep hsub' (by omega)).mono fun out _ hout => ?_
        obtain ⟨types, hsplits, hheads⟩ := hout
        refine ⟨type :: types, .take hfind hsplits, ?_⟩
        rw [hheads, List.map_cons, Head.joinAll_cons, ← hhead]
        rfl

/-- Splitting the names of a key, with nothing done yet. -/
theorem ensures_split {key : Key} (hs : r.Sound s) (hp : ∀ t, t ∉ pending)
    (hst : Standing r pending s st) (hordered : st.2.Ordered) (hnum : key.Numbered st.2.numbering)
    (hkey : {n | n ∈ key.names} ⊆ r.closure s) :
    Ensures r pending s (mergeSubsets key.size key none) st fun out _ =>
      (∃ done, SoFar (r.Answers pending) done out.2 ∧
        done ∪ {n | n ∈ out.1.names} = {n | n ∈ key.names}) ∧
      ∃ types, Cache.Splits st.2.rows key.names types out.1.names ∧
        out.2.map head = Head.joinAll none (types.map head) := by
  have hnone : SoFar (r.Answers pending) ∅ none := rfl
  have hrows : ∀ names type, (names, type) ∈ st.2.rows → ∃ n, n ∈ names := fun _ _ hrow =>
    hst.trusted.nonempty (Cache.mem_rows.1 hrow)
  have hstart : Splitting r pending s st.2.rows key none ∅ st :=
    ⟨hst, hordered, hnum, .refl _ _, hnone, fun n hn => absurd hn (Set.notMem_empty n)⟩
  have hcovers := ensures_mergeSubsets hs hkey key.size hst hnum hnone (Set.empty_union _)
  have hsplits := ensures_splitting hs hp hrows key.size hstart (by rwa [Set.empty_union])
    (Nat.le_refl _)
  exact hcovers.and (After.mono hsplits (fun _ _ h => h.2.2) fun _ _ _ => trivial)

/-! ### What remains -/

/-- **The names that remain** are merged in one after the other. -/
theorem ensures_singles (hs : r.Sound s) : ∀ {names : List Name} {result : Option EffectiveType}
      {done : Set Name} {st : State Cache}, Standing r pending s st → g.Level st.1 →
      (∀ n ∈ names, BuildsSingle r pending s g build n) → done ∪ {n | n ∈ names} ⊆ r.closure s →
      SoFar (r.Answers pending) done result →
    Ensures r pending s (mergeSingles build names result) st fun out _ =>
      ∃ singles, List.Forall₂ (fun n o => r.Answers pending {n} o) names singles ∧
        out.map head = Head.joinAll (result.map head) (singles.map head) := by
  intro names
  induction names with
  | nil => exact fun hst _ _ _ _ => ensures_pure hst ⟨[], .nil, rfl⟩
  | cons n names ih =>
    intro result done st hst hg hbuild hsub hres
    obtain ⟨hn, hnames⟩ := List.forall_mem_cons.1 hbuild
    have hone : done ∪ {n} ⊆ r.closure s := by
      rintro m (hm | rfl)
      · exact hsub (Or.inl hm)
      · exact hsub (Or.inr List.mem_cons_self)
    have hround : Ensures r pending s
        (do return some (← mergeNext result (← single build n))) st fun out _ => ∃ o m, out = some m ∧
          r.Answers pending {n} o ∧ r.Answers pending (done ∪ {n}) m ∧
          m.head = Head.next (result.map head) o.head := by
      refine (ensures_single hst hg hn).bind fun o st₁ hst₁ _ ho => ?_
      refine ((ensures_mergeNext hs hst₁ hone hres ho).and (after_mergeNext result o st₁)).bind
        fun m st₂ hst₂ _ hm => ?_
      exact ensures_pure hst₂ ⟨o, m, rfl, ho, hm.1, hm.2.1⟩
    unfold mergeSingles
    rw [List.foldlM_cons]
    refine hround.bind fun out st' hst' hl hout => ?_
    obtain ⟨o, m, rfl, ho, hm, hhead⟩ := hout
    have hsub' : done ∪ {n} ∪ {m | m ∈ names} ⊆ r.closure s := by
      rintro u (hu | hu)
      · exact hone hu
      · exact hsub (Or.inr (List.mem_cons_of_mem n hu))
    refine (ih hst' (hg.trans hl.level) hnames hsub' (show SoFar (r.Answers pending) _ (some m) from hm)).mono
      fun out _ hout => ?_
    obtain ⟨singles, hsingles, hheads⟩ := hout
    refine ⟨o :: singles, .cons ho hsingles, ?_⟩
    rw [hheads, List.map_cons, Head.joinAll_cons, ← hhead]
    rfl

/-! ### Aggregating -/

/-- **Aggregating** assembles a type from what is cached at the start. -/
theorem after_aggregateWith {names : List Name} (hs : r.Sound s) (hp : ∀ t, t ∉ pending)
    (hst : Standing r pending s st) (hordered : st.2.Ordered) (hnames : {n | n ∈ names} ⊆ r.closure s)
    (hbuild : ∀ n ∈ names, BuildsSingle r pending s st.1 build n) :
    After (aggregateWith build names) st (fun e _ => Assembled st.2.rows r (.ofList names) e)
      fun _ _ => True := by
  obtain ⟨hst₁, hl₁, hnum, -⟩ := ensures_keyFor hst names
  unfold aggregateWith keyFor
  rw [after_bind, after_change, after_bind, after_read]
  split
  · next e hfound =>
    have hkeyed := hst₁.trusted.keyed
    exact Assembled.of_holds (c := (st.2.keyFor names).2) hordered hkeyed
      (fun _ _ hrow => hst₁.trusted.nonempty (Cache.mem_rows.1 hrow))
      (Cache.holds_of_get? hkeyed hnum hfound)
  · have hall : {n | n ∈ (st.2.keyFor names).1.names} ⊆ r.closure s := fun n hn =>
      hnames (NameSet.mem_ofList.1 hn)
    rw [after_bind]
    refine After.mono (ensures_split hs hp hst₁ hordered hnum hall) (fun out st₂ hout => ?_)
      fun _ _ _ => trivial
    obtain ⟨remaining, result⟩ := out
    obtain ⟨hst₂, hl₂, ⟨done, hres, hcover⟩, types, hsplits, hheads⟩ := hout
    have hremaining : ∀ n ∈ remaining.names.toList, BuildsSingle r pending s st.1 build n := fun n hn => by
      have hn : n ∈ done ∪ {n | n ∈ remaining.names} := Or.inr hn
      rw [hcover] at hn
      exact hbuild n (NameSet.mem_ofList.1 hn)
    have hsingles := ensures_singles hs hst₂ (hl₁.level.trans hl₂.level) hremaining
      (Set.Subset.trans hcover.subset hall) hres
    rw [after_bind]
    refine After.mono hsingles (fun out st₃ hout => ?_) fun _ _ _ => trivial
    obtain ⟨-, -, singles, hsingles, hout⟩ := hout
    cases out with
    | none => trivial
    | some e =>
      refine ⟨types, remaining.names, singles, hsplits, hsingles.imp fun n o ho => ?_, ?_⟩
      · exact ⟨ho.built, (ho.yields fun t _ => hp t).1⟩
      · rw [List.map_append, Head.joinAll_append, ← hheads, ← hout]
        rfl

end Build

namespace Cache

variable {c : Cache} {pending : Set Name} {names : List Name} {res : Resolution}

theorem assembled_build (hc : c.Trusted r pending) (ho : c.Ordered) (hp : ∀ t, t ∉ pending)
    (hs : r.Sound {n | n ∈ names}) (h : (c.build r names).1 = .ok e) :
    Assembled c.rows r (.ofList names) e := by
  have hbuild : ∀ n ∈ names, BuildsSingle r pending {n | n ∈ names} .supertypes
      (r.buildDeclared (r.aggregate VisitGuard.maxSupertypeDepth)) n := fun n hn =>
    buildsSingle_of_aggregate hs (ensures_aggregate hs _) (r.subset_closure _ hn)
      (ready_of_sound hs hn (.refl _)) (Nat.lt_succ_self _)
  have hafter := after_aggregateWith hs hp (hc.standing _) ho (r.subset_closure _) hbuild
  obtain ⟨g, hassembled⟩ := (after_start hafter).1 e h
  exact hassembled

/-- **What a request gives** is assembled from what is cached when it is made. -/
theorem assembled_resolve (hc : c.Trusted r pending) (ho : c.Ordered) (hp : ∀ t, t ∉ pending)
    (h : (c.resolve r names).1 = .ok res) : Assembled c.rows r (.ofList names) res.type := by
  have hkey := hc.keyFor names
  have hends := c.resolve_ends r names
  generalize c.resolve r names = out at hends h
  cases hends with
  | unnamed _ => cases h
  | cached _ hget =>
    obtain rfl := Except.ok.inj h
    have hheld := holds_of_get? hkey.keyed (keyFor_numbered hc.keyed names) hget
    exact Assembled.of_holds (c := (c.keyFor names).2) ho hkey.keyed
      (fun _ _ hrow => hkey.nonempty (mem_rows.1 hrow)) hheld
  | refused _ _ _ => cases h
  | failed _ _ _ _ => cases h
  | built _ _ hcheck hout =>
    obtain rfl := Except.ok.inj h
    exact assembled_build (c := (c.keyFor names).2) hkey ho hp (checkRequest_ok_iff.1 hcheck) hout

end Cache

end ContentTypes
