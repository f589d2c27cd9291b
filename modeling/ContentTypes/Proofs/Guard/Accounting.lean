import Mathlib.Data.List.Induction
import Mathlib.Tactic.Common
import ContentTypes.Guard

/-! # The accounts of a guard

A guard answers any number of requests to visit, between which visits end. `VisitGuard.Answered` says once
what a request can meet with, and everything about single requests is read off it (`answered`).

A sequence of steps is `Paired` if only visits under way are left. Then the guard's accounts are right after
every step (`Accounted`): it is visiting, each once, the values whose admitted visit is still `Open` in the
record of the steps; its depth is their number; and it has counted the requests, the refused ones too. So the
record alone decides what the guard answers next (`guard_accounts`). -/

namespace ContentTypes

namespace VisitGuard

variable {α : Type} [DecidableEq α]

/-! ### One request -/

/-- The guard with one more request counted. -/
def counted (g : VisitGuard α) : VisitGuard α := { g with visits := min (g.visits + 1) visitCap }

/-- The guard while it visits one more value. -/
def admitting (g : VisitGuard α) (a : α) : VisitGuard α :=
  { g.counted with visiting := a :: g.visiting, depth := g.depth + 1 }

/-- **What a request meets with**: the answer and the guard then. A spent budget comes before a cycle, and a
cycle before the depth. -/
inductive Answered (g : VisitGuard α) (a : α) : Admission × VisitGuard α → Prop where
  | spent (hspent : g.maxVisits < g.counted.visits) : Answered g a (.iterationExceeded, g.counted)
  | cycle (hleft : g.counted.visits ≤ g.maxVisits) (ha : a ∈ g.visiting) : Answered g a (.cycle, g.counted)
  | tooDeep (hleft : g.counted.visits ≤ g.maxVisits) (ha : a ∉ g.visiting) (hdepth : g.maxDepth ≤ g.depth) :
      Answered g a (.depthExceeded, g.counted)
  | entered (hleft : g.counted.visits ≤ g.maxVisits) (ha : a ∉ g.visiting) (hdepth : g.depth < g.maxDepth) :
      Answered g a (.entered, g.admitting a)

theorem answered (g : VisitGuard α) (a : α) : Answered g a (g.enter a) := by
  unfold enter
  dsimp only
  split
  · exact .spent (by assumption)
  · next hleft =>
    split
    · exact .cycle (Nat.not_lt.1 hleft) (by assumption)
    · next ha =>
      split
      · exact .tooDeep (Nat.not_lt.1 hleft) ha (by assumption)
      · next hdepth => exact .entered (Nat.not_lt.1 hleft) ha (Nat.not_le.1 hdepth)

/-- The possible answers to a request, one case each. -/
theorem enter_fst_iff (g : VisitGuard α) (a : α) :
    ((g.enter a).1 = .iterationExceeded ↔ g.maxVisits < g.counted.visits) ∧
    ((g.enter a).1 = .cycle ↔ g.counted.visits ≤ g.maxVisits ∧ a ∈ g.visiting) ∧
    ((g.enter a).1 = .depthExceeded ↔
      g.counted.visits ≤ g.maxVisits ∧ a ∉ g.visiting ∧ g.maxDepth ≤ g.depth) ∧
    ((g.enter a).1 = .entered ↔ g.counted.visits ≤ g.maxVisits ∧ a ∉ g.visiting ∧ g.depth < g.maxDepth) := by
  have h := g.answered a
  generalize g.enter a = out at h
  cases h with
  | spent hspent => simp [hspent, Nat.not_le.2 hspent]
  | cycle hleft ha => simp [hleft, ha]
  | tooDeep hleft ha hdepth => simp [hleft, ha, hdepth]
  | entered hleft ha hdepth => simp [hleft, ha, hdepth]

theorem enter_snd_of_entered {g : VisitGuard α} {a : α} (h : (g.enter a).1 = .entered) :
    (g.enter a).2 = g.admitting a := by
  have hanswered := g.answered a
  generalize g.enter a = out at h hanswered
  cases hanswered with
  | entered => rfl
  | spent => cases h
  | cycle => cases h
  | tooDeep => cases h

/-- A refused request is counted, and that is all. -/
theorem enter_snd_of_refused {g : VisitGuard α} {a : α} (h : (g.enter a).1 ≠ .entered) :
    (g.enter a).2 = g.counted := by
  have hanswered := g.answered a
  generalize g.enter a = out at h hanswered
  cases hanswered with
  | entered => exact absurd rfl h
  | spent => rfl
  | cycle => rfl
  | tooDeep => rfl

/-! ### A sequence of steps -/

/-- What is asked of a guard. -/
inductive Step (α : Type) where
  | enter (a : α)
  | leave (a : α)
deriving DecidableEq

/-- The guard after a step. -/
def perform (g : VisitGuard α) : Step α → VisitGuard α
  | .enter a => (g.enter a).2
  | .leave a => g.leave a

/-- The guard after a sequence of steps. -/
def run (g : VisitGuard α) (steps : List (Step α)) : VisitGuard α := steps.foldl perform g

/-- A guard with the given limits, before the first step. -/
def limited (maxDepth maxVisits : Nat) : VisitGuard α := { maxDepth, maxVisits }

/-- A step that a caller may take: only a visit under way is left. -/
def Allowed (g : VisitGuard α) : Step α → Prop
  | .enter _ => True
  | .leave a => a ∈ g.visiting

instance decidableAllowed (g : VisitGuard α) : ∀ s : Step α, Decidable (g.Allowed s)
  | .enter _ => inferInstanceAs (Decidable True)
  | .leave a => inferInstanceAs (Decidable (a ∈ g.visiting))

/-- A caller may take the steps one after the other. -/
def Paired (g : VisitGuard α) : List (Step α) → Prop
  | [] => True
  | s :: steps => g.Allowed s ∧ Paired (g.perform s) steps

instance decidablePaired : ∀ (g : VisitGuard α) (steps : List (Step α)), Decidable (g.Paired steps)
  | _, [] => .isTrue trivial
  | g, s :: steps =>
    letI := decidablePaired (g.perform s) steps
    inferInstanceAs (Decidable (g.Allowed s ∧ (g.perform s).Paired steps))

/-- The number of requests among some steps, whatever their answers. -/
def requests (steps : List (Step α)) : Nat := steps.countP fun s => s matches .enter _

/-- **An open visit**: after some of the steps `a` was admitted, and it was not left since. -/
def Open (g : VisitGuard α) (steps : List (Step α)) (a : α) : Prop :=
  ∃ before after, steps = before ++ .enter a :: after ∧ ((g.run before).enter a).1 = .entered ∧
    .leave a ∉ after

variable {start g : VisitGuard α} {steps : List (Step α)} {s : Step α} {a b : α}

theorem run_concat (g : VisitGuard α) (steps : List (Step α)) (s : Step α) :
    g.run (steps ++ [s]) = (g.run steps).perform s := by
  simp [run, List.foldl_append]

theorem paired_concat : g.Paired (steps ++ [s]) ↔ g.Paired steps ∧ (g.run steps).Allowed s := by
  induction steps generalizing g with
  | nil => simp [Paired, run]
  | cons s' steps ih =>
    rw [List.cons_append, Paired, Paired, ih, and_assoc]
    rfl

omit [DecidableEq α] in
theorem requests_concat (steps : List (Step α)) (s : Step α) :
    requests (steps ++ [s]) = requests steps + if s matches .enter _ then 1 else 0 := by
  simp [requests, List.countP_append, List.countP_cons]

theorem not_open_nil : ¬ g.Open [] a := by
  rintro ⟨before, after, heq, -⟩
  exact absurd heq.symm (by simp)

/-- One step more leaves the open visits open, except that it may leave one or admit one. -/
theorem open_concat : g.Open (steps ++ [s]) a ↔
    (g.Open steps a ∧ s ≠ .leave a) ∨ (s = .enter a ∧ ((g.run steps).enter a).1 = .entered) := by
  constructor
  · rintro ⟨before, after, heq, hentered, hleave⟩
    -- the step is the admission itself, or comes after it
    rcases List.eq_nil_or_concat after with rfl | ⟨after, s', rfl⟩
    · obtain ⟨rfl, hs⟩ := List.append_inj' heq rfl
      exact Or.inr ⟨(List.cons.inj hs).1, hentered⟩
    · rw [List.concat_eq_append, ← List.cons_append, ← List.append_assoc] at heq
      obtain ⟨hsteps, hs⟩ := List.append_inj' heq rfl
      obtain rfl := (List.cons.inj hs).1
      rw [List.concat_eq_append, List.mem_append, List.mem_singleton, not_or] at hleave
      exact Or.inl ⟨⟨before, after, hsteps, hentered, hleave.1⟩, Ne.symm hleave.2⟩
  · rintro (⟨⟨before, after, rfl, hentered, hleave⟩, hs⟩ | ⟨rfl, hentered⟩)
    · refine ⟨before, after ++ [s], by simp, hentered, ?_⟩
      rw [List.mem_append, List.mem_singleton, not_or]
      exact ⟨hleave, Ne.symm hs⟩
    · exact ⟨steps, [], rfl, hentered, List.not_mem_nil⟩

/-! ### The accounts -/

/-- **The accounts are right**: what the guard `g` has noted of the steps since `start`. -/
structure Accounted (start : VisitGuard α) (steps : List (Step α)) (g : VisitGuard α) : Prop where
  maxDepth : g.maxDepth = start.maxDepth
  maxVisits : g.maxVisits = start.maxVisits
  visits : g.visits = min (requests steps) visitCap
  nodup : g.visiting.Nodup
  depth : g.depth = g.visiting.length
  fits : g.depth ≤ g.maxDepth
  visiting : ∀ a, a ∈ g.visiting ↔ start.Open steps a

theorem accounted_limited (maxDepth maxVisits : Nat) :
    Accounted (limited maxDepth maxVisits) [] (limited maxDepth maxVisits : VisitGuard α) where
  maxDepth := rfl
  maxVisits := rfl
  visits := rfl
  nodup := List.nodup_nil
  depth := rfl
  fits := Nat.zero_le _
  visiting _ := ⟨fun ha => absurd ha List.not_mem_nil, fun h => absurd h not_open_nil⟩

theorem Accounted.visits_counted (h : Accounted start steps g) (a : α) :
    g.counted.visits = min (requests (steps ++ [.enter a])) visitCap := by
  rw [requests_concat, counted, h.visits]
  simp only [if_true]
  omega

/-- A refused request changes no account but the count. -/
theorem Accounted.refused (h : Accounted start steps (start.run steps))
    (ha : ((start.run steps).enter a).1 ≠ .entered) :
    Accounted start (steps ++ [.enter a]) (start.run steps).counted where
  maxDepth := h.maxDepth
  maxVisits := h.maxVisits
  visits := h.visits_counted a
  nodup := h.nodup
  depth := h.depth
  fits := h.fits
  visiting b := by
    have hnot : ¬ ((.enter a : Step α) = .enter b ∧ ((start.run steps).enter b).1 = .entered) := by
      rintro ⟨hab, hb⟩
      cases hab
      exact ha hb
    rw [open_concat, or_iff_left hnot, and_iff_left (by simp)]
    exact h.visiting b

/-- An admitted request opens the visit of its value. -/
theorem Accounted.entered (h : Accounted start steps (start.run steps))
    (ha : ((start.run steps).enter a).1 = .entered) :
    Accounted start (steps ++ [.enter a]) ((start.run steps).admitting a) where
  maxDepth := h.maxDepth
  maxVisits := h.maxVisits
  visits := h.visits_counted a
  nodup := List.nodup_cons.2 ⟨((enter_fst_iff _ a).2.2.2.1 ha).2.1, h.nodup⟩
  depth := congrArg (· + 1) h.depth
  fits := ((enter_fst_iff _ a).2.2.2.1 ha).2.2
  visiting b := by
    rw [open_concat, and_iff_left (by simp), ← h.visiting b, admitting, List.mem_cons, or_comm]
    refine or_congr_right ⟨?_, ?_⟩
    · rintro rfl
      exact ⟨rfl, ha⟩
    · rintro ⟨hab, -⟩
      exact (Step.enter.inj hab).symm

/-- Leaving closes the visit of its value. -/
theorem Accounted.leave (h : Accounted start steps (start.run steps)) (ha : a ∈ (start.run steps).visiting) :
    Accounted start (steps ++ [.leave a]) ((start.run steps).leave a) where
  maxDepth := h.maxDepth
  maxVisits := h.maxVisits
  visits := by rw [requests_concat]; exact h.visits
  nodup := h.nodup.erase a
  depth := by rw [VisitGuard.leave, List.length_erase_of_mem ha, h.depth]
  fits := Nat.le_trans (Nat.sub_le _ 1) h.fits
  visiting b := by
    have hleft : b ∈ ((start.run steps).leave a).visiting ↔ b ≠ a ∧ b ∈ (start.run steps).visiting :=
      h.nodup.mem_erase_iff
    rw [open_concat, or_iff_left (by simp), ← h.visiting b, hleft, and_comm, Ne, Ne, Step.leave.injEq,
      eq_comm]

/-- Every step that a caller may take keeps the accounts right. -/
theorem Accounted.step (h : Accounted start steps (start.run steps)) (hs : (start.run steps).Allowed s) :
    Accounted start (steps ++ [s]) ((start.run steps).perform s) := by
  cases s with
  | leave a => exact h.leave hs
  | enter a =>
    by_cases hentered : ((start.run steps).enter a).1 = .entered
    · rw [perform, enter_snd_of_entered hentered]
      exact h.entered hentered
    · rw [perform, enter_snd_of_refused hentered]
      exact h.refused hentered

/-- **The accounts are right after every paired sequence of steps.** -/
theorem accounted_run (maxDepth maxVisits : Nat) (h : (limited maxDepth maxVisits).Paired steps) :
    Accounted (limited maxDepth maxVisits) steps ((limited maxDepth maxVisits).run steps) := by
  induction steps using List.reverseRecOn with
  | nil => exact accounted_limited maxDepth maxVisits
  | append_singleton steps s ih =>
    obtain ⟨hsteps, hs⟩ := paired_concat.1 h
    rw [run_concat]
    exact (ih hsteps).step hs

/-- A budget below `visitCap` is spent by as many requests. -/
theorem Accounted.spent_iff (h : Accounted start steps g) (hmax : start.maxVisits < visitCap) :
    g.maxVisits < g.counted.visits ↔ start.maxVisits ≤ requests steps := by
  rw [counted, h.visits, h.maxVisits]
  dsimp only
  omega

/-- **What a guard has noted, and what it answers.** After a paired sequence of steps the depth is the number
of values being visited and within its limit, and these are the values with an open visit. The budget is spent
from the request after the last that it has; before that, a value being visited meets with a cycle, and another
is refused exactly at the greatest depth. A refused request changes neither what is being visited nor the depth. -/
theorem guard_accounts {maxDepth maxVisits : Nat} (hmax : maxVisits < visitCap) {steps : List (Step α)}
    (hsteps : (limited maxDepth maxVisits).Paired steps) :
    let g := (limited maxDepth maxVisits).run steps
    g.depth = g.visiting.length ∧ g.visiting.Nodup ∧ g.depth ≤ maxDepth ∧
    (∀ a, a ∈ g.visiting ↔ (limited maxDepth maxVisits).Open steps a) ∧
    ∀ a, ((g.enter a).1 = .cycle ↔ a ∈ g.visiting ∧ requests steps < maxVisits) ∧
      ((g.enter a).1 = .depthExceeded ↔
        a ∉ g.visiting ∧ requests steps < maxVisits ∧ g.depth = maxDepth) ∧
      ((g.enter a).1 = .iterationExceeded ↔ maxVisits ≤ requests steps) ∧
      ((g.enter a).1 ≠ .entered →
        (g.enter a).2.visiting = g.visiting ∧ (g.enter a).2.depth = g.depth) := by
  intro g
  have h : Accounted _ steps g := accounted_run maxDepth maxVisits hsteps
  have hspent : g.maxVisits < g.counted.visits ↔ maxVisits ≤ requests steps := h.spent_iff hmax
  have hleft : g.counted.visits ≤ g.maxVisits ↔ requests steps < maxVisits := by
    rw [← Nat.not_lt, hspent, Nat.not_le]
  have hmaxDepth : g.maxDepth = maxDepth := h.maxDepth
  have hfits : g.depth ≤ maxDepth := hmaxDepth ▸ h.fits
  have hfull : g.maxDepth ≤ g.depth ↔ g.depth = maxDepth := by omega
  refine ⟨h.depth, h.nodup, hfits, h.visiting, fun a => ?_⟩
  obtain ⟨hiteration, hcycle, hdeep, -⟩ := g.enter_fst_iff a
  refine ⟨?_, ?_, hiteration.trans hspent, fun hrefused => ?_⟩
  · rw [hcycle, hleft, and_comm]
  · rw [hdeep, hleft, hfull, and_left_comm]
  · rw [enter_snd_of_refused hrefused]
    exact ⟨rfl, rfl⟩

/-- Two visits fill the depth: the value being visited meets with a cycle, the one that was left lies too deep. -/
theorem guard_accounts_two_deep :
    let steps : List (Step Nat) := [.enter 1, .leave 1, .enter 2, .enter 3]
    let g := (limited 2 5 : VisitGuard Nat).run steps
    (5 < visitCap ∧ (limited 2 5 : VisitGuard Nat).Paired steps) ∧
      g.depth = 2 ∧ ¬ (limited 2 5).Open steps 1 ∧ (limited 2 5).Open steps 2 ∧
      (g.enter 2).1 = .cycle ∧ (g.enter 1).1 = .depthExceeded ∧ (g.enter 1).2.visiting = [3, 2] := by
  have hmax : 5 < visitCap := by decide
  have hsteps : (limited 2 5 : VisitGuard Nat).Paired [.enter 1, .leave 1, .enter 2, .enter 3] := by decide
  obtain ⟨hdepth, -, -, hopen, hanswers⟩ := guard_accounts hmax hsteps
  have hdeep := (hanswers 1).2.1.2 (by decide)
  refine ⟨⟨hmax, hsteps⟩, hdepth, ?_, ?_, (hanswers 2).1.2 (by decide), hdeep, ?_⟩
  · exact fun h => absurd ((hopen 1).2 h) (by decide)
  · exact (hopen 2).1 (by decide)
  · exact ((hanswers 1).2.2.2 (by rw [hdeep]; decide)).1

end VisitGuard

end ContentTypes
