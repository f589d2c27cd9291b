import ContentTypes.Proofs.Guard.Accounting
import ContentTypes.Resolver.Visit

/-! # What holds after a visit

`Visit.After v s ok err` says what holds once the visit `v` has run from the state `s`, a guard and the
state of the walk: `ok` of a result and the state then, `err` of an error and the state then. There is one
rule for each way in which visits are built (`after_bind`, `after_read`, `after_change`, `after_within`)
and one for loops (`after_foldlM`). What holds after a whole walk holds of its outcome (`after_start`).

The parts of one walk keep the same things. These are put down in a `Contract`, and `Contract.Ensures` says
what a part ensures beside them. -/

namespace ContentTypes

/-! ### The guard -/

namespace VisitGuard

variable {g g' : VisitGuard Name} {n : Name}

/-- The guard during the visit of `n`. -/
def during (g : VisitGuard Name) (n : Name) : VisitGuard Name :=
  { g with visiting := n :: g.visiting, depth := g.depth + 1, visits := min (g.visits + 1) visitCap }

/-- Both guards are at the same place of the walk; only the count of visits may differ. -/
structure Level (g g' : VisitGuard Name) : Prop where
  visiting : g'.visiting = g.visiting
  depth : g'.depth = g.depth
  maxDepth : g'.maxDepth = g.maxDepth
  maxVisits : g'.maxVisits = g.maxVisits

theorem Level.refl (g : VisitGuard Name) : g.Level g := ⟨rfl, rfl, rfl, rfl⟩

theorem Level.trans {g'' : VisitGuard Name} (h : g.Level g') (h' : g'.Level g'') : g.Level g'' :=
  ⟨h'.visiting.trans h.visiting, h'.depth.trans h.depth, h'.maxDepth.trans h.maxDepth,
    h'.maxVisits.trans h.maxVisits⟩

/-- Guards at the same place are at the same place during the visit of a name. -/
theorem Level.during (h : g.Level g') (n : Name) : (g.during n).Level (g'.during n) :=
  ⟨congrArg (n :: ·) h.visiting, congrArg (· + 1) h.depth, h.maxDepth, h.maxVisits⟩

/-- An admitted visit had room in every respect. -/
theorem enter_entered (h : g.enter n = (.entered, g')) :
    g' = g.during n ∧ n ∉ g.visiting ∧ g.depth < g.maxDepth ∧
      min (g.visits + 1) visitCap ≤ g.maxVisits := by
  have hfst : (g.enter n).1 = .entered := by rw [h]
  obtain ⟨hleft, hn, hdepth⟩ := (g.enter_fst_iff n).2.2.2.1 hfst
  have hg : (g.enter n).2 = g.during n := enter_snd_of_entered hfst
  rw [h] at hg
  exact ⟨hg, hn, hdepth, hleft⟩

/-- A visit is refused because the budget is spent, the name is being visited, or it lies too deep. -/
theorem enter_refused {a : Admission} (h : g.enter n = (a, g')) (ha : a ≠ .entered) :
    (a = .iterationExceeded ∧ g.maxVisits < min (g.visits + 1) visitCap) ∨
      (a = .cycle ∧ n ∈ g.visiting) ∨
      (a = .depthExceeded ∧ n ∉ g.visiting ∧ g.maxDepth ≤ g.depth) := by
  have hanswered := g.answered n
  rw [h] at hanswered
  cases hanswered with
  | spent hspent => exact Or.inl ⟨rfl, hspent⟩
  | cycle _ hn => exact Or.inr (Or.inl ⟨rfl, hn⟩)
  | tooDeep _ hn hdepth => exact Or.inr (Or.inr ⟨rfl, hn, hdepth⟩)
  | entered => exact absurd rfl ha

theorem enter_of_room (hn : n ∉ g.visiting) (hd : g.depth < g.maxDepth)
    (hv : g.visits < g.maxVisits) : g.enter n = (.entered, g.during n) := by
  have hleft : g.counted.visits ≤ g.maxVisits := by
    rw [counted]
    dsimp only
    omega
  have hfst : (g.enter n).1 = .entered := (g.enter_fst_iff n).2.2.2.2 ⟨hleft, hn, hd⟩
  exact Prod.ext hfst (enter_snd_of_entered hfst)

/-- Leaving undoes the place taken by entering. -/
theorem Level.leave (h : (g.during n).Level g') : g.Level (g'.leave n) := by
  obtain ⟨h1, h2, h3, h4⟩ := h
  refine ⟨?_, ?_, h3, h4⟩
  · rw [VisitGuard.leave, h1]
    exact List.erase_cons_head n g.visiting
  · rw [VisitGuard.leave, h2]
    rfl

end VisitGuard

/-! ### Rules -/

namespace Visit

variable {σ α β : Type}

/-- A state of a walk: the guard and what has been found. -/
abbrev State (σ : Type) := VisitGuard Name × σ

/-- What holds after running a visit. -/
def After (v : Visit σ α) (s : State σ) (ok : α → State σ → Prop) (err : Error → State σ → Prop) :
    Prop :=
  match v.run s with
  | (.ok a, s') => ok a s'
  | (.error e, s') => err e s'

variable {v : Visit σ α} {s : State σ} {ok ok' : α → State σ → Prop} {err err' : Error → State σ → Prop}

theorem After.mono (h : After v s ok err) (hok : ∀ a s', ok a s' → ok' a s')
    (herr : ∀ e s', err e s' → err' e s') : After v s ok' err' := by
  unfold After at h ⊢
  split at h
  · exact hok _ _ h
  · exact herr _ _ h

/-- Two things that hold after a visit hold together. -/
theorem After.and (h : After v s ok err) (h' : After v s ok' err') :
    After v s (fun a s' => ok a s' ∧ ok' a s') fun e s' => err e s' ∧ err' e s' := by
  unfold After at h h' ⊢
  split at h
  · next heq => simp only [heq] at h' ⊢; exact ⟨h, h'⟩
  · next heq => simp only [heq] at h' ⊢; exact ⟨h, h'⟩

@[simp] theorem after_pure {a : α} : After (pure a) s ok err ↔ ok a s := Iff.rfl

@[simp] theorem after_throw {e : Error} : After (throw e : Visit σ α) s ok err ↔ err e s := Iff.rfl

theorem after_bind {f : α → Visit σ β} {ok : β → State σ → Prop} :
    After (v >>= f) s ok err ↔ After v s (fun a s' => After (f a) s' ok err) err := by
  unfold After
  have hrun : (v >>= f).run s = (fun p => ExceptT.bindCont f p.1 p.2) (v.run s) := rfl
  rw [hrun]
  obtain ⟨o, s'⟩ := v.run s
  cases o <;> rfl

@[simp] theorem after_read {f : σ → α} : After (read f) s ok err ↔ ok (f s.2) s := Iff.rfl

@[simp] theorem after_change {f : σ → α × σ} :
    After (change f) s ok err ↔ ok (f s.2).1 (s.1, (f s.2).2) := Iff.rfl

/-- **Visiting a name**: the body runs under the guard during the visit, or the guard refuses. -/
theorem after_within {name blamed : Name} {body : Visit σ α}
    (henter : ∀ g, s.1.enter name = (.entered, g) →
      After body (g, s.2) (fun a s' => ok a (s'.1.leave name, s'.2))
        fun e s' => err e (s'.1.leave name, s'.2))
    (hrefuse : ∀ a g, s.1.enter name = (a, g) → a ≠ .entered →
      err (if a = .cycle then .inheritanceCycle name else .inheritanceTooDeep blamed) (g, s.2)) :
    After (within name blamed body) s ok err := by
  obtain ⟨g, st⟩ := s
  obtain ⟨a, g', hg⟩ : ∃ a g', g.enter name = (a, g') := ⟨_, _, rfl⟩
  have hrun : (within name blamed body).run (g, st) = match a with
      | .entered => ((body.run (g', st)).1, (body.run (g', st)).2.1.leave name,
          (body.run (g', st)).2.2)
      | .cycle => (.error (.inheritanceCycle name), g', st)
      | .depthExceeded => (.error (.inheritanceTooDeep blamed), g', st)
      | .iterationExceeded => (.error (.inheritanceTooDeep blamed), g', st) := by
    unfold within
    simp only [ExceptT.run_mk, hg]
    cases a <;> rfl
  unfold After
  rw [hrun]
  cases a with
  | entered =>
    have h := henter g' hg
    unfold After at h
    split at h
    · next heq => simp only [heq]; exact h
    · next heq => simp only [heq]; exact h
  | cycle => exact hrefuse _ _ hg (by decide)
  | depthExceeded => exact hrefuse _ _ hg (by decide)
  | iterationExceeded => exact hrefuse _ _ hg (by decide)

/-- **A loop**: an invariant in terms of what remains of the list is kept by every round. -/
theorem after_foldlM {f : β → α → Visit σ β} (inv : List α → β → State σ → Prop)
    (step : ∀ a l b s, inv (a :: l) b s → After (f b a) s (inv l) err) :
    ∀ (l : List α) (b : β) (s : State σ), inv l b s → After (l.foldlM f b) s (inv []) err
  | [], _, _, h => h
  | a :: l, b, s, h => by
    rw [List.foldlM_cons, after_bind]
    exact (step a l b s h).mono (fun b' s' h' => after_foldlM inv step l b' s' h') fun _ _ h' => h'

theorem forM_eq_foldlM {m : Type → Type} [Monad m] [LawfulMonad m] (f : α → m Unit) :
    ∀ l : List α, l.forM f = l.foldlM (fun _ a => f a) ()
  | [] => rfl
  | a :: l => by
    rw [List.forM_eq_forM, List.forM_cons, List.foldlM_cons]
    exact bind_congr fun _ => forM_eq_foldlM f l

/-- A loop without a result. -/
theorem after_forM {f : α → Visit σ Unit} (inv : List α → State σ → Prop)
    (step : ∀ a l s, inv (a :: l) s → After (f a) s (fun _ => inv l) err) (l : List α) (s : State σ)
    (h : inv l s) : After (l.forM f) s (fun _ => inv []) err := by
  rw [forM_eq_foldlM]
  exact after_foldlM (fun l _ => inv l) (fun a l _ => step a l) l () s h

/-- What holds after a visit holds of its outcome with a fresh guard. -/
theorem after_start {st : σ} (h : After v (.supertypes, st) ok err) :
    (∀ a, (start v st).1 = .ok a → ∃ g, ok a (g, (start v st).2)) ∧
      ∀ e, (start v st).1 = .error e → ∃ g, err e (g, (start v st).2) := by
  have hrun : start v st = ((v.run (.supertypes, st)).1, (v.run (.supertypes, st)).2.2) := rfl
  rw [hrun]
  unfold After at h
  split at h
  · next a s' heq =>
    rw [heq]
    exact ⟨fun b hb => ⟨s'.1, Except.ok.inj hb ▸ h⟩, fun e he => by cases he⟩
  · next e s' heq =>
    rw [heq]
    exact ⟨fun b hb => (by cases hb), fun e' he => ⟨s'.1, Except.error.inj he ▸ h⟩⟩

/-! ### Contracts -/

/-- What every part of a walk keeps: the states between its parts, how a later one of them relates to an
earlier one, and what is known after an error. -/
structure Contract (σ : Type) where
  stands : State σ → Prop
  later : State σ → State σ → Prop
  failed : Error → State σ → Prop
  refl : ∀ s, later s s
  trans : ∀ {s s' s''}, later s s' → later s' s'' → later s s''

namespace Contract

/-- **What a part of a walk ensures**: it gets to a later state with `ok` of what it gives, or fails as the
contract says. -/
def Ensures (C : Contract σ) (v : Visit σ α) (s : State σ) (ok : α → State σ → Prop) : Prop :=
  After v s (fun a s' => C.stands s' ∧ C.later s s' ∧ ok a s') C.failed

variable {C : Contract σ} {ok₂ : β → State σ → Prop}

theorem Ensures.mono (h : C.Ensures v s ok) (hok : ∀ a s', ok a s' → ok' a s') : C.Ensures v s ok' :=
  After.mono h (fun a s' h => ⟨h.1, h.2.1, hok a s' h.2.2⟩) fun _ _ h => h

/-- What a part ensures, and what holds after it anyway. -/
theorem Ensures.and (h : C.Ensures v s ok) (h' : After v s ok' fun _ _ => True) :
    C.Ensures v s fun a s' => ok a s' ∧ ok' a s' :=
  (After.and h h').mono (fun _ _ h => ⟨h.1.1, h.1.2.1, h.1.2.2, h.2⟩) fun _ _ h => h.1

theorem ensures_pure {a : α} (hs : C.stands s) (h : ok a s) : C.Ensures (pure a) s ok :=
  ⟨hs, C.refl s, h⟩

theorem ensures_throw {e : Error} (h : C.failed e s) : C.Ensures (throw e) s ok := h

theorem Ensures.bind {f : α → Visit σ β} (hv : C.Ensures v s ok)
    (hf : ∀ a s', C.stands s' → C.later s s' → ok a s' → C.Ensures (f a) s' ok₂) :
    C.Ensures (v >>= f) s ok₂ := by
  unfold Ensures
  rw [after_bind]
  refine After.mono hv (fun a s' h => ?_) fun _ _ h => h
  obtain ⟨hs', hl, ha⟩ := h
  exact After.mono (hf a s' hs' hl ha) (fun b s'' h => ⟨h.1, C.trans hl h.2.1, h.2.2⟩) fun _ _ h => h

/-- What is read of the state is there to go on with. -/
theorem ensures_read {f : σ → α} {g : α → Visit σ β} (h : C.Ensures (g (f s.2)) s ok₂) :
    C.Ensures (read f >>= g) s ok₂ := by
  unfold Ensures
  rw [after_bind]
  exact h

theorem ensures_change {f : σ → α × σ} (hs : C.stands (s.1, (f s.2).2)) (hl : C.later s (s.1, (f s.2).2))
    (h : ok (f s.2).1 (s.1, (f s.2).2)) : C.Ensures (change f) s ok :=
  ⟨hs, hl, h⟩

/-- A loop keeps an invariant in terms of what remains of the list. -/
theorem Ensures.foldlM {f : β → α → Visit σ β} (inv : List α → β → State σ → Prop)
    (step : ∀ a l b s', C.stands s' → C.later s s' → inv (a :: l) b s' →
      C.Ensures (f b a) s' (inv l))
    (hs : C.stands s) {l : List α} {b : β} (h : inv l b s) : C.Ensures (l.foldlM f b) s (inv []) := by
  refine after_foldlM (fun l b s' => C.stands s' ∧ C.later s s' ∧ inv l b s') ?_ l b s
    ⟨hs, C.refl s, h⟩
  rintro a l b s' ⟨hs', hl, h⟩
  exact After.mono (step a l b s' hs' hl h) (fun b' s'' h => ⟨h.1, C.trans hl h.2.1, h.2.2⟩) fun _ _ h => h

end Contract

end Visit

end ContentTypes
