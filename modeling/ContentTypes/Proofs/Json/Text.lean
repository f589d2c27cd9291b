import Mathlib.Data.List.Chain
import ContentTypes.Proofs.Json.Literals
import ContentTypes.Proofs.Json.Tokens
import ContentTypes.Proofs.Text.Reading

/-! # Reading back what was written

A value written without blanks is read as itself (`parse?_compact`), whatever strings it holds, keys and
strings without a text among them. Only its numbers are asked to be spelled as numbers are, as a value keeps
the literals it is built from.

The text of a value is that of its tokens (`toList_compact`), so it is enough that each token is found again
with those behind it: a number is, as no two of them stand side by side in a value (`apart_tokens`). -/

namespace ContentTypes.Json

/-! ### The text of a value is that of its tokens -/

/-- A token as it is written. -/
def Token.spelling : Token → List Char
  | .openBrace => ['{']
  | .closeBrace => ['}']
  | .openBracket => ['[']
  | .closeBracket => [']']
  | .colon => [':']
  | .comma => [',']
  | .null => "null".toList
  | .bool b => if b then "true".toList else "false".toList
  | .num literal => literal.toList
  | .str s => (quote s).toList

mutual

theorem toList_compact : ∀ j : Json, j.compact.toList = j.tokens.flatMap Token.spelling
  | .null => rfl
  | .bool b => by cases b <;> rfl
  | .num literal => by simp [compact, tokens, Token.spelling]
  | .str s => by simp [compact, tokens, Token.spelling]
  | .arr [] => rfl
  | .arr (j :: rest) => by
    rw [compact, compactElements, String.toList_append, String.toList_append, Text.toList_intercalate,
      toList_compact j, tokens, List.flatMap_cons, List.flatMap_append, flatMap_elementTokens rest]
    simp [Token.spelling]
  | .obj [] => rfl
  | .obj ((k, j) :: rest) => by
    rw [compact, compactMembers, String.toList_append, String.toList_append, Text.toList_intercalate,
      String.toList_append, String.toList_append, toList_compact j, tokens, List.flatMap_cons, List.flatMap_cons,
      List.flatMap_cons, List.flatMap_append, flatMap_memberTokens rest]
    simp [Token.spelling]

theorem flatMap_elementTokens : ∀ l : List Json, (elementTokens l).flatMap Token.spelling =
    ((compactElements l).flatMap fun s => ",".toList ++ s.toList) ++ [']']
  | [] => rfl
  | j :: rest => by
    rw [elementTokens, compactElements, List.flatMap_cons, List.flatMap_cons, List.flatMap_append,
      flatMap_elementTokens rest, ← toList_compact j]
    simp [Token.spelling]

theorem flatMap_memberTokens : ∀ l : List (Text × Json), (memberTokens l).flatMap Token.spelling =
    ((compactMembers l).flatMap fun s => ",".toList ++ s.toList) ++ ['}']
  | [] => rfl
  | (k, j) :: rest => by
    rw [memberTokens, compactMembers, List.flatMap_cons, List.flatMap_cons, List.flatMap_cons, List.flatMap_cons,
      List.flatMap_append, flatMap_memberTokens rest, ← toList_compact j]
    simp [Token.spelling]

end

/-! ### Tokens -/

/-- A number begins with a digit or a minus sign. -/
theorem head_of_number? {c : Char} {s taken left : List Char} (h : number? (c :: s) = some (taken, left)) :
    c = '-' ∨ isDigit c = true := by
  by_cases hc : c = '-'
  · exact .inl hc
  refine .inr (Bool.of_not_eq_false fun hdigit => ?_)
  have hzero : c ≠ '0' := by rintro rfl; simp [isDigit] at hdigit
  have hinteger : integer? (c :: s) = none := by
    rw [integer?, digits?, List.span_eq_takeWhile_dropWhile, List.takeWhile_cons_of_neg (by simp [hdigit])]
    exact fun _ h => hzero (List.cons.inj h).1
  rw [number?, unsigned?, hinteger] at h
  · cases h
  · exact fun _ h => hc (List.cons.inj h).1

/-- A token that may be read: a number has to be spelled as one. -/
def Token.Written : Token → Prop
  | .num literal => number? literal.toList = some (literal.toList, [])
  | _ => True

def Token.isNum : Token → Bool
  | .num _ => true
  | _ => false

theorem token?_num {literal : String} (h : (Token.num literal).Written) {rest : List Char} (hrest : Ends rest) :
    token? (literal.toList ++ rest) = some (.num literal, rest) := by
  have hnumber : number? (literal.toList ++ rest) = some (literal.toList, rest) := steady_number h hrest
  rcases hliteral : literal.toList with _ | ⟨c, s⟩
  · rw [Token.Written, hliteral] at h
    cases h
  · rw [hliteral, List.cons_append] at hnumber
    have hhead := head_of_number? hnumber
    rw [List.cons_append, token?, hnumber]
    · simp [← hliteral]
    all_goals rintro _ h; obtain ⟨rfl, -⟩ := List.cons.inj h; simp [isDigit] at hhead

theorem token?_spelling {t : Token} (h : t.Written) {rest : List Char} (hrest : t.isNum = true → Ends rest) :
    token? (t.spelling ++ rest) = some (t, rest) := by
  cases t with
  | num literal => exact token?_num h (hrest rfl)
  | str s => exact token?_quote s rest
  | bool b => cases b <;> rfl
  | _ => rfl

/-- A spelling begins with a character that is no blank, and none with which a number could go on if it is
none itself. -/
theorem spelling_head {t : Token} (h : t.Written) : ∃ c s, t.spelling = c :: s ∧ isSpace c = false ∧
    (t.isNum = false → isDigit c = false ∧ c ≠ '.' ∧ c ≠ 'e' ∧ c ≠ 'E') := by
  cases t with
  | num literal =>
    rcases hliteral : literal.toList with _ | ⟨c, s⟩
    · rw [Token.Written, hliteral] at h
      cases h
    · rw [Token.Written, hliteral] at h
      refine ⟨c, s, hliteral, ?_, fun h => by cases h⟩
      rcases head_of_number? h with rfl | hdigit
      · rfl
      · refine Bool.of_not_eq_true fun hspace => ?_
        simp only [isSpace, Bool.or_eq_true, beq_iff_eq] at hspace
        rcases hspace with ((rfl | rfl) | rfl) | rfl <;> cases hdigit
  | str s =>
    cases s with
    | none => exact ⟨_, _, rfl, rfl, fun _ => by decide⟩
    | some s => exact ⟨'"', _, String.toList_ofList, rfl, fun _ => by decide⟩
  | bool b => cases b <;> exact ⟨_, _, rfl, rfl, fun _ => by decide⟩
  | _ => exact ⟨_, _, rfl, rfl, fun _ => by decide⟩

/-- No number stands directly behind another. -/
def Apart (ts : List Token) : Prop := ts.IsChain fun t u => t.isNum = true → u.isNum = false

theorem Apart.cons {t : Token} {ts : List Token} (ht : t.isNum = false) (h : Apart ts) : Apart (t :: ts) :=
  List.isChain_cons.2 ⟨fun _ _ hnum => absurd hnum (by simp [ht]), h⟩

theorem Apart.append {ts us : List Token} (ht : Apart ts) (hu : Apart us)
    (hhead : ∀ u ∈ us.head?, u.isNum = false) : Apart (ts ++ us) :=
  List.isChain_append.2 ⟨ht, hu, fun _ _ u hu _ => hhead u hu⟩

/-- Behind a number, the spellings of the next tokens do not go on with one. -/
theorem Apart.ends {t : Token} {ts : List Token} (h : Apart (t :: ts)) (hwritten : ∀ u ∈ ts, u.Written)
    (hnum : t.isNum = true) : Ends (ts.flatMap Token.spelling) := by
  cases ts with
  | nil => exact fun _ hc => by cases hc
  | cons u us =>
    obtain ⟨c, s, hu, -, hends⟩ := spelling_head (hwritten u List.mem_cons_self)
    rw [List.flatMap_cons, hu]
    rintro _ ⟨⟩
    exact hends ((List.isChain_cons.1 h).1 u rfl hnum)

theorem head_elementTokens (l : List Json) : ∀ t ∈ (elementTokens l).head?, t.isNum = false := by
  cases l <;> simp [elementTokens, Token.isNum]

theorem head_memberTokens (l : List (Text × Json)) : ∀ t ∈ (memberTokens l).head?, t.isNum = false := by
  cases l <;> simp [memberTokens, Token.isNum]

mutual

theorem apart_tokens : ∀ j : Json, Apart j.tokens
  | .null => .singleton _
  | .bool _ => .singleton _
  | .num _ => .singleton _
  | .str _ => .singleton _
  | .arr [] => by rw [tokens]; exact .cons rfl (.singleton _)
  | .arr (j :: rest) => by
    rw [tokens]
    exact .cons rfl ((apart_tokens j).append (apart_elementTokens rest) (head_elementTokens rest))
  | .obj [] => by rw [tokens]; exact .cons rfl (.singleton _)
  | .obj ((k, j) :: rest) => by
    rw [tokens]
    exact .cons rfl (.cons rfl (.cons rfl
      ((apart_tokens j).append (apart_memberTokens rest) (head_memberTokens rest))))

theorem apart_elementTokens : ∀ l : List Json, Apart (elementTokens l)
  | [] => .singleton _
  | j :: rest => by
    rw [elementTokens]
    exact .cons rfl ((apart_tokens j).append (apart_elementTokens rest) (head_elementTokens rest))

theorem apart_memberTokens : ∀ l : List (Text × Json), Apart (memberTokens l)
  | [] => .singleton _
  | (k, j) :: rest => by
    rw [memberTokens]
    exact .cons rfl (.cons rfl (.cons rfl
      ((apart_tokens j).append (apart_memberTokens rest) (head_memberTokens rest))))

end

/-- Tokens that stand apart are cut out of their spellings again. A spelling has a character at least, so that a
unit of fuel for each character is enough. -/
theorem tokensFrom?_spelling {ts : List Token} (hwritten : ∀ t ∈ ts, t.Written) (hapart : Apart ts) {fuel : Nat}
    (hfuel : (ts.flatMap Token.spelling).length ≤ fuel) (acc : List Token) :
    tokensFrom? fuel (ts.flatMap Token.spelling) acc = some (acc.reverse ++ ts) := by
  induction ts generalizing fuel acc with
  | nil => simp [tokensFrom?]
  | cons t ts ih =>
    obtain ⟨ht, hts⟩ := List.forall_mem_cons.1 hwritten
    have htoken := token?_spelling ht (hapart.ends hts)
    obtain ⟨c, s, hspelling, hspace, -⟩ := spelling_head ht
    rw [List.flatMap_cons, hspelling, List.cons_append] at hfuel ⊢
    rw [hspelling, List.cons_append] at htoken
    obtain ⟨fuel, rfl⟩ := Nat.exists_eq_add_of_lt (Nat.lt_of_lt_of_le (Nat.zero_lt_succ _) hfuel)
    rw [Nat.zero_add, tokensFrom?, hspace, htoken]
    simp only [Bool.false_eq_true, if_false]
    rw [List.length_cons, List.length_append] at hfuel
    rw [ih hts (List.isChain_cons.1 hapart).2 (by omega)]
    simp

/-- A value whose numbers are spelled as numbers are. -/
def Written (j : Json) : Prop := ∀ t ∈ j.tokens, t.Written

theorem written_of_single {j : Json} {t : Token} (hj : j.tokens = [t]) (ht : t.Written) : j.Written := by
  intro u hu
  rw [hj] at hu
  obtain rfl := List.mem_singleton.1 hu
  exact ht

theorem written_null : Written .null := written_of_single rfl trivial

theorem written_bool (b : Bool) : Written (.bool b) := written_of_single rfl trivial

theorem written_str (s : Text) : Written (.str s) := written_of_single rfl trivial

theorem written_num {literal : String} (h : number? literal.toList = some (literal.toList, [])) :
    Written (.num literal) :=
  written_of_single (t := .num literal) rfl h

theorem written_elementTokens {l : List Json} (h : ∀ j ∈ l, j.Written) : ∀ t ∈ elementTokens l, t.Written := by
  induction l with
  | nil => exact List.forall_mem_singleton.2 trivial
  | cons j l ih =>
    obtain ⟨hj, hl⟩ := List.forall_mem_cons.1 h
    exact List.forall_mem_cons.2 ⟨trivial, List.forall_mem_append.2 ⟨hj, ih hl⟩⟩

theorem written_memberTokens {l : List (Text × Json)} (h : ∀ m ∈ l, m.2.Written) :
    ∀ t ∈ memberTokens l, t.Written := by
  induction l with
  | nil => exact List.forall_mem_singleton.2 trivial
  | cons m l ih =>
    obtain ⟨hm, hl⟩ := List.forall_mem_cons.1 h
    refine List.forall_mem_cons.2 ⟨trivial, List.forall_mem_cons.2 ⟨trivial, List.forall_mem_cons.2 ⟨trivial, ?_⟩⟩⟩
    exact List.forall_mem_append.2 ⟨hm, ih hl⟩

theorem written_arr {l : List Json} (h : ∀ j ∈ l, j.Written) : Written (.arr l) := by
  -- The tokens are those behind a first element, but for the comma.
  have hrest := written_elementTokens h
  cases l with
  | nil => exact List.forall_mem_cons.2 ⟨trivial, hrest⟩
  | cons j l => exact List.forall_mem_cons.2 ⟨trivial, (List.forall_mem_cons.1 hrest).2⟩

theorem written_obj {l : List (Text × Json)} (h : ∀ m ∈ l, m.2.Written) : Written (.obj l) := by
  have hrest := written_memberTokens h
  cases l with
  | nil => exact List.forall_mem_cons.2 ⟨trivial, hrest⟩
  | cons m l => exact List.forall_mem_cons.2 ⟨trivial, (List.forall_mem_cons.1 hrest).2⟩

theorem written_object {members : List (String × Json)} (h : ∀ m ∈ members, m.2.Written) :
    Written (object members) :=
  written_obj (List.forall_mem_map.2 h)

theorem written_texts (l : List String) : (texts l).Written :=
  written_arr (List.forall_mem_map.2 fun _ _ => written_str _)

theorem written_option {f : α → Json} (hf : ∀ a, (f a).Written) (o : Option α) : (option f o).Written := by
  cases o with
  | none => exact written_null
  | some a => exact hf a

/-- **A value is read back from its text.** -/
theorem parse?_compact {j : Json} (h : j.Written) : parse? j.compact = some j := by
  have htokens : tokens? j.compact.toList = some j.tokens := by
    rw [tokens?, toList_compact]
    exact tokensFrom?_spelling h (apart_tokens j) le_rfl []
  rw [parse?, htokens]
  exact ofTokens?_tokens j

end ContentTypes.Json
