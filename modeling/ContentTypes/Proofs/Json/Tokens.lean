import Mathlib.Data.List.Basic
import Mathlib.Tactic.Common
import ContentTypes.Json.Parser

/-! # The tokens of a value

`Json.tokens` spells a value in tokens: an element of an array or a member of an object after the first
comes with the comma before it. The reader, given these tokens, gives the value back (`ofTokens?_tokens`),
for any value and at any depth: wherever a value may begin, the tokens of one lead to the state in which it
is complete, and the frames around it stay as they are (`foldlM_tokens`). -/

namespace ContentTypes.Json

mutual

/-- The tokens that spell a value. -/
def tokens : Json → List Token
  | .null => [.null]
  | .bool b => [.bool b]
  | .num literal => [.num literal]
  | .str s => [.str s]
  | .arr [] => [.openBracket, .closeBracket]
  | .arr (j :: rest) => .openBracket :: (tokens j ++ elementTokens rest)
  | .obj [] => [.openBrace, .closeBrace]
  | .obj ((k, j) :: rest) => .openBrace :: .str k :: .colon :: (tokens j ++ memberTokens rest)

/-- The tokens of an array behind its first element. -/
def elementTokens : List Json → List Token
  | [] => [.closeBracket]
  | j :: rest => .comma :: (tokens j ++ elementTokens rest)

/-- The tokens of an object behind its first member. -/
def memberTokens : List (Text × Json) → List Token
  | [] => [.closeBrace]
  | (k, j) :: rest => .comma :: .str k :: .colon :: (tokens j ++ memberTokens rest)

end

/-- After an opened array an element is read as any value. -/
theorem foldlM_firstElement (stack : List Frame) (j : Json) (rest : List Token) :
    (j.tokens ++ rest).foldlM State.step? (.firstElement stack) =
      (j.tokens ++ rest).foldlM State.step? (.value (.array [] :: stack)) := by
  obtain ⟨t, ts, htokens, hstep⟩ : ∃ t ts, j.tokens = t :: ts ∧
      State.step? (.firstElement stack) t = State.step? (.value (.array [] :: stack)) t := by
    cases j with
    | null => exact ⟨_, _, rfl, rfl⟩
    | bool b => exact ⟨_, _, rfl, rfl⟩
    | num literal => exact ⟨_, _, rfl, rfl⟩
    | str s => exact ⟨_, _, rfl, rfl⟩
    | arr elements => cases elements <;> exact ⟨_, _, rfl, rfl⟩
    | obj members => cases members <;> exact ⟨_, _, rfl, rfl⟩
  rw [htokens, List.cons_append, List.foldlM_cons, List.foldlM_cons, hstep]

mutual

/-- **The tokens of a value are read as the value.** -/
theorem foldlM_tokens : ∀ (j : Json) (stack : List Frame),
    j.tokens.foldlM State.step? (.value stack) = some (.complete stack j)
  | .null, stack => rfl
  | .bool b, stack => rfl
  | .num literal, stack => rfl
  | .str s, stack => rfl
  | .arr [], stack => rfl
  | .arr (j :: rest), stack => by
    rw [tokens]
    show (j.tokens ++ elementTokens rest).foldlM State.step? (.firstElement stack) = _
    rw [foldlM_firstElement, List.foldlM_append, foldlM_tokens j]
    exact foldlM_elementTokens rest stack [] j
  | .obj [], stack => rfl
  | .obj ((k, j) :: rest), stack => by
    rw [tokens]
    show (j.tokens ++ memberTokens rest).foldlM State.step? (.value (.object [] k :: stack)) = _
    rw [List.foldlM_append, foldlM_tokens j]
    exact foldlM_memberTokens rest stack [] k j

theorem foldlM_elementTokens : ∀ (l : List Json) (stack : List Frame) (done : List Json) (v : Json),
    (elementTokens l).foldlM State.step? (.complete (.array done :: stack) v) =
      some (.complete stack (.arr ((v :: done).reverse ++ l)))
  | [], stack, done, v => by
    rw [List.append_nil]
    rfl
  | j :: rest, stack, done, v => by
    rw [elementTokens]
    show (j.tokens ++ elementTokens rest).foldlM State.step? (.value (.array (v :: done) :: stack)) = _
    rw [List.foldlM_append, foldlM_tokens j]
    refine (foldlM_elementTokens rest stack (v :: done) j).trans ?_
    simp

theorem foldlM_memberTokens : ∀ (l : List (Text × Json)) (stack : List Frame) (done : List (Text × Json))
    (k : Text) (v : Json), (memberTokens l).foldlM State.step? (.complete (.object done k :: stack) v) =
      some (.complete stack (.obj (((k, v) :: done).reverse ++ l)))
  | [], stack, done, k, v => by
    rw [List.append_nil]
    rfl
  | (k', j) :: rest, stack, done, k, v => by
    rw [memberTokens]
    show (j.tokens ++ memberTokens rest).foldlM State.step? (.value (.object ((k, v) :: done) k' :: stack)) = _
    rw [List.foldlM_append, foldlM_tokens j]
    refine (foldlM_memberTokens rest stack ((k, v) :: done) k' j).trans ?_
    simp

end

theorem ofTokens?_tokens (j : Json) : ofTokens? j.tokens = some j := by
  rw [ofTokens?, foldlM_tokens]
  rfl

end ContentTypes.Json
