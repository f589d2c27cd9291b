import Mathlib.Data.List.TakeDrop
import ContentTypes.Json.Printer
import ContentTypes.Json.Token

/-! # Reading back strings and numbers

A string is read as it was quoted (`token?_quote`), one without a text too: the escape of each character is
read as a piece for that character. What is split off a text as a number is split off too where more text
follows, unless that goes on with a number (`steady_number`). -/

namespace ContentTypes.Json

/-! ### Strings -/

/-- The piece as which a written character is read. -/
def pieceOf (c : Char) : Piece :=
  if c.toNat < 0x20 ∧ c ∉ ['\x08', '\x0c', '\n', '\r', '\t'] then .unit c.toNat else .char c

theorem hex4?_hexDigit {n : Nat} (h : n < 0x20) :
    hex4? '0' '0' (Text.hexDigit (n / 16)) (Text.hexDigit (n % 16)) = some n := by
  revert n; decide

theorem pieces?_escape (c : Char) (rest : List Char) (acc : List Piece) :
    pieces? (escape c ++ rest) acc = pieces? rest (pieceOf c :: acc) := by
  unfold escape
  split
  -- The escapes of one letter compute; other controls go by their number, the rest stand for themselves.
  · rfl
  · rfl
  · rfl
  · rfl
  · rfl
  · rfl
  · rfl
  · next hquote hslash hb hf hn hr ht =>
    split
    · next hlt =>
      have hpiece : pieceOf c = .unit c.toNat := by
        rw [pieceOf, if_pos]
        simp only [List.mem_cons, List.not_mem_nil, or_false, not_or]
        exact ⟨hlt, hb, hf, hn, hr, ht⟩
      simp [pieces?, hex4?_hexDigit hlt, hpiece]
    · next hge =>
      have hpiece : pieceOf c = .char c := if_neg fun h => hge h.1
      rw [List.singleton_append, pieces?, if_neg (not_or.2 ⟨hge, hslash⟩), hpiece]
      · exact hquote
      · exact fun _ _ _ _ _ h _ => hslash h
      · exact fun _ _ h _ => hslash h

theorem pieces?_escaped (s rest : List Char) (acc : List Piece) :
    pieces? (s.flatMap escape ++ '"' :: rest) acc = some (acc.reverse ++ s.map pieceOf, rest) := by
  induction s generalizing acc with
  | nil => simp [pieces?]
  | cons c s ih =>
    rw [List.flatMap_cons, List.append_assoc, pieces?_escape, ih]
    simp

theorem assemble_unit {u : Nat} (hlead : isLead u = false) (htrail : isTrail u = false) (rest : List Piece)
    (acc : List Char) : assemble (.unit u :: rest) acc = assemble rest (Char.ofNat u :: acc) := by
  cases rest with
  | nil => simp [assemble, hlead, htrail]
  | cons p rest =>
    cases p with
    | char c => simp [assemble, hlead, htrail]
    | unit v => simp [assemble, hlead, htrail]

theorem assemble_pieceOf (c : Char) (rest : List Piece) (acc : List Char) :
    assemble (pieceOf c :: rest) acc = assemble rest (c :: acc) := by
  unfold pieceOf
  split
  · next h =>
    have hlead : isLead c.toNat = false := by simp [isLead]; omega
    have htrail : isTrail c.toNat = false := by simp [isTrail]; omega
    rw [assemble_unit hlead htrail, Char.ofNat_toNat]
  · rfl

theorem assemble_pieces (s acc : List Char) :
    assemble (s.map pieceOf) acc = some (String.ofList (acc.reverse ++ s)) := by
  induction s generalizing acc with
  | nil => simp [assemble]
  | cons c s ih =>
    rw [List.map_cons, assemble_pieceOf, ih]
    simp

/-- **A quoted string is read as the string**, and what follows it is left. -/
theorem token?_quote (s : Text) (rest : List Char) :
    token? ((quote s).toList ++ rest) = some (.str s, rest) := by
  cases s with
  | none => rfl
  | some s =>
    rw [quote, String.toList_ofList, List.cons_append, List.append_assoc, List.singleton_append, token?,
      pieces?_escaped]
    simp [assemble_pieces]

/-! ### Numbers -/

/-- The text does not go on with a number. -/
def Ends (s : List Char) : Prop := ∀ c ∈ s.head?, isDigit c = false ∧ c ≠ '.' ∧ c ≠ 'e' ∧ c ≠ 'E'

/-- What is split off a text is split off too where more text follows that does not go on with a number. -/
def Steady (split? : List Char → Option (List Char × List Char)) : Prop :=
  ∀ {s taken left more : List Char}, split? s = some (taken, left) → Ends more →
    split? (s ++ more) = some (taken, left ++ more)

theorem span_append {s more : List Char} (hmore : Ends more) :
    (s ++ more).span isDigit = ((s.span isDigit).1, (s.span isDigit).2 ++ more) := by
  simp only [List.span_eq_takeWhile_dropWhile]
  induction s with
  | nil =>
    cases more with
    | nil => rfl
    | cons c more => simp [(hmore c rfl).1]
  | cons c s ih =>
    obtain ⟨htake, hdrop⟩ := Prod.mk.inj ih
    by_cases hc : isDigit c <;> simp [hc, htake, hdrop]

theorem steady_digits : Steady digits? := by
  intro s taken left more h hmore
  rw [digits?] at h ⊢
  rw [span_append hmore]
  rcases hspan : s.span isDigit with ⟨_ | ⟨d, ds⟩, rest⟩
  · rw [hspan] at h
    cases h
  · rw [hspan] at h
    obtain ⟨rfl, rfl⟩ := Prod.mk.inj (Option.some.inj h)
    rfl

theorem steady_integer : Steady integer? := by
  intro s taken left more h hmore
  cases s with
  | nil => cases h
  | cons c s =>
    by_cases hc : c = '0'
    · subst hc
      obtain ⟨rfl, rfl⟩ := Prod.mk.inj (Option.some.inj h)
      rfl
    · have hdigits : ∀ t, integer? (c :: t) = digits? (c :: t) := fun t => by
        rw [integer?]
        exact fun _ h => hc (List.cons.inj h).1
      rw [hdigits] at h
      rw [List.cons_append, hdigits]
      exact steady_digits h hmore

theorem steady_fraction : Steady fraction? := by
  intro s taken left more h hmore
  have hother : ∀ t, (∀ c ∈ t.head?, c ≠ '.') → fraction? t = some ([], t) := fun t ht => by
    rw [fraction?]
    rintro rest rfl
    exact ht '.' rfl rfl
  cases s with
  | nil =>
    obtain ⟨rfl, rfl⟩ := Prod.mk.inj (Option.some.inj h)
    exact hother more fun c hc => (hmore c hc).2.1
  | cons c s =>
    by_cases hc : c = '.'
    · subst hc
      obtain ⟨⟨ds, r⟩, hds, heq⟩ := Option.map_eq_some_iff.1 h
      obtain ⟨rfl, rfl⟩ := Prod.mk.inj heq
      rw [List.cons_append, fraction?, steady_digits hds hmore]
      rfl
    · rw [hother _ (by simpa using hc)] at h
      obtain ⟨rfl, rfl⟩ := Prod.mk.inj (Option.some.inj h)
      exact hother _ (by simpa using hc)

/-- With a digit behind it the sign is the same whatever follows. -/
theorem sign_append {s ds left : List Char} (h : digits? (sign s).2 = some (ds, left)) (more : List Char) :
    sign (s ++ more) = ((sign s).1, (sign s).2 ++ more) := by
  cases s with
  | nil => cases h
  | cons c s =>
    by_cases hplus : c = '+'
    · subst hplus; rfl
    by_cases hminus : c = '-'
    · subst hminus; rfl
    have hnone : ∀ t, sign (c :: t) = ([], c :: t) := fun t => by
      rw [sign]
      · exact fun _ h => hplus (List.cons.inj h).1
      · exact fun _ h => hminus (List.cons.inj h).1
    rw [List.cons_append, hnone, hnone, List.cons_append]

theorem steady_exponent : Steady exponent? := by
  intro s taken left more h hmore
  cases s with
  | nil =>
    obtain ⟨rfl, rfl⟩ := Prod.mk.inj (Option.some.inj h)
    cases more with
    | nil => rfl
    | cons c more =>
      have hc := hmore c rfl
      rw [List.nil_append, exponent?, if_neg (not_or.2 hc.2.2)]
  | cons c s =>
    rw [exponent?] at h
    rw [List.cons_append, exponent?]
    split at h
    · next he =>
      rw [if_pos he]
      obtain ⟨⟨ds, r⟩, hds, heq⟩ := Option.map_eq_some_iff.1 h
      replace hds : digits? (sign s).2 = some (ds, r) := hds
      obtain ⟨rfl, rfl⟩ := Prod.mk.inj heq
      rw [sign_append hds]
      show (digits? ((sign s).2 ++ more)).map _ = _
      rw [steady_digits hds hmore]
      rfl
    · next he =>
      rw [if_neg he]
      obtain ⟨rfl, rfl⟩ := Prod.mk.inj (Option.some.inj h)
      rfl

theorem steady_unsigned : Steady unsigned? := by
  intro s taken left more h hmore
  obtain ⟨⟨whole, s₁⟩, hwhole, h⟩ := Option.bind_eq_some_iff.1 h
  obtain ⟨⟨part, s₂⟩, hpart, h⟩ := Option.bind_eq_some_iff.1 h
  obtain ⟨⟨power, s₃⟩, hpower, h⟩ := Option.bind_eq_some_iff.1 h
  obtain ⟨rfl, rfl⟩ := Prod.mk.inj (Option.some.inj h)
  simp [unsigned?, steady_integer hwhole hmore, steady_fraction hpart hmore, steady_exponent hpower hmore]

theorem steady_number : Steady number? := by
  intro s taken left more h hmore
  cases s with
  | nil => cases h
  | cons c s =>
    by_cases hc : c = '-'
    · subst hc
      obtain ⟨⟨ds, r⟩, hds, heq⟩ := Option.map_eq_some_iff.1 h
      obtain ⟨rfl, rfl⟩ := Prod.mk.inj heq
      rw [List.cons_append, number?, steady_unsigned hds hmore]
      rfl
    · have hunsigned : ∀ t, number? (c :: t) = unsigned? (c :: t) := fun t => by
        rw [number?]
        exact fun _ h => hc (List.cons.inj h).1
      rw [hunsigned] at h
      rw [List.cons_append, hunsigned]
      exact steady_unsigned h hmore

end ContentTypes.Json
