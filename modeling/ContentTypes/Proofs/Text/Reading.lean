import Mathlib.Data.List.Forall2
import Mathlib.Tactic.Common
import ContentTypes.Text.Blank

/-! # Joining, cutting and trimming

What the readers of texts share: every part of a list is read on its own (`mapM_of_forall₂`), and parts
joined by a separator are found again by cutting at it, with the blanks around them trimmed
(`map_trim_fields`). -/

namespace ContentTypes.Text

/-- A list is read part by part. -/
theorem mapM_of_forall₂ {f : α → Option β} {l : List α} {r : List β}
    (h : List.Forall₂ (fun a b => f a = some b) l r) : l.mapM f = some r := by
  induction h with
  | nil => rfl
  | cons hhead _ ih => simp [hhead, ih]

/-! ### Joining -/

theorem toList_intercalate {sep : String} (s : String) (l : List String) :
    (String.intercalate sep (s :: l)).toList = s.toList ++ l.flatMap fun t => sep.toList ++ t.toList := by
  rw [String.toList_intercalate]
  induction l generalizing s with
  | nil => simp
  | cons t l ih =>
    rw [List.map_cons, List.map_cons, List.intercalate_cons_cons, ← List.map_cons, ih]
    simp

/-! ### Cutting and trimming -/

theorem fields_of_not_mem {sep : Char} {s : List Char} (h : sep ∉ s) : fields sep s = [s] := by
  induction s with
  | nil => rfl
  | cons c s ih =>
    obtain ⟨hc, hs⟩ := List.ne_and_not_mem_of_not_mem_cons h
    rw [fields, if_neg hc.symm, ih hs]

theorem fields_append {sep : Char} {s : List Char} (h : sep ∉ s) (rest : List Char) :
    fields sep (s ++ sep :: rest) = s :: fields sep rest := by
  induction s with
  | nil => rw [List.nil_append, fields, if_pos rfl]
  | cons c s ih =>
    obtain ⟨hc, hs⟩ := List.ne_and_not_mem_of_not_mem_cons h
    rw [List.cons_append, fields, if_neg hc.symm, ih hs]

/-- Blanks alone. -/
def Blanks (s : List Char) : Prop := ∀ c ∈ s, isBlank c = true

theorem blanks_nil : Blanks [] := fun _ h => by cases h

/-- No blank. -/
def Solid (s : List Char) : Prop := ∀ c ∈ s, isBlank c = false

theorem dropWhile_solid {s : List Char} (h : Solid s) : s.dropWhile isBlank = s := by
  cases s with
  | nil => rfl
  | cons c s => exact List.dropWhile_cons_of_neg (by simp [h c List.mem_cons_self])

theorem trim_padded {before s behind : List Char} (hbefore : Blanks before) (hs : Solid s)
    (hbehind : Blanks behind) : trim (before ++ (s ++ behind)) = s := by
  rw [trim, List.dropWhile_append_of_pos hbefore]
  cases s with
  | nil =>
    rw [List.nil_append, ← List.append_nil behind, List.dropWhile_append_of_pos hbehind]
    rfl
  | cons c s =>
    have hreverse : Blanks behind.reverse := fun c hc => hbehind c (List.mem_reverse.1 hc)
    rw [List.cons_append, List.dropWhile_cons_of_neg (by simp [hs c List.mem_cons_self]), ← List.cons_append,
      List.reverse_append, List.dropWhile_append_of_pos hreverse, dropWhile_solid, List.reverse_reverse]
    exact fun c hc => hs c (List.mem_reverse.1 hc)

theorem mem_dropWhile {p : Char → Bool} {c : Char} {s : List Char} (h : c ∈ s) (hc : p c = false) :
    c ∈ s.dropWhile p := by
  induction s with
  | nil => cases h
  | cons d s ih =>
    rw [List.dropWhile_cons]
    split
    · next hd =>
      refine ih ((List.mem_cons.1 h).resolve_left ?_)
      rintro rfl
      simp [hc] at hd
    · exact h

/-- Trimming keeps all that is no blank. -/
theorem mem_trim {c : Char} {s : List Char} (h : c ∈ s) (hc : isBlank c = false) : c ∈ trim s :=
  List.mem_reverse.2 (mem_dropWhile (List.mem_reverse.2 (mem_dropWhile h hc)) hc)

/-- A part that may stand between bars: it is not empty, and neither a blank nor a bar is in it. -/
def Part (s : List Char) : Prop := s ≠ [] ∧ ∀ c ∈ s, isBlank c = false ∧ c ≠ '|'

theorem Part.solid {s : List Char} (h : Part s) : Solid s := fun c hc => (h.2 c hc).1

theorem bar_not_mem_of_blanks {s : List Char} (h : Blanks s) : '|' ∉ s := fun hbar => by
  have hblank : isBlank '|' = true := h _ hbar
  cases hblank

theorem Part.bar_not_mem {before s behind : List Char} (h : Part s) (hbefore : Blanks before)
    (hbehind : Blanks behind) : '|' ∉ before ++ (s ++ behind) := by
  simp only [List.mem_append, not_or]
  exact ⟨bar_not_mem_of_blanks hbefore, fun hbar => (h.2 _ hbar).2 rfl, bar_not_mem_of_blanks hbehind⟩

theorem Part.trim_ne_nil {s : List Char} (h : Part s) (rest : List Char) : trim (s ++ rest) ≠ [] := by
  obtain ⟨c, t, rfl⟩ := List.exists_cons_of_ne_nil h.1
  exact List.ne_nil_of_mem (mem_trim List.mem_cons_self (h.solid c List.mem_cons_self))

/-- Parts are found again between bars with blanks around them. -/
theorem map_trim_fields {before part : List Char} {parts : List (List Char)} (hbefore : Blanks before)
    (hparts : ∀ p ∈ part :: parts, Part p) :
    (fields '|' (before ++ (part ++ parts.flatMap (" | ".toList ++ ·)))).map trim = part :: parts := by
  induction parts generalizing before part with
  | nil =>
    have hpart : Part part := hparts part List.mem_cons_self
    rw [List.flatMap_nil, fields_of_not_mem (hpart.bar_not_mem hbefore blanks_nil), List.map_singleton,
      trim_padded hbefore hpart.solid blanks_nil]
  | cons next parts ih =>
    obtain ⟨hpart, hrest⟩ := List.forall_mem_cons.1 hparts
    have hblank : Blanks [' '] := by simp [Blanks, isBlank]
    have hsplit : before ++ (part ++ (next :: parts).flatMap (" | ".toList ++ ·)) =
        (before ++ (part ++ [' '])) ++ '|' :: ([' '] ++ (next ++ parts.flatMap (" | ".toList ++ ·))) := by
      simp
    rw [hsplit, fields_append (hpart.bar_not_mem hbefore hblank), List.map_cons,
      trim_padded hbefore hpart.solid hblank, ih hblank hrest]

end ContentTypes.Text
