import RpcLearning.Json.Writer.Compact

/-!
# Tokens

The compact text of a value as a list of tokens.
-/

namespace RpcLearning.Json

open FastWriter (quoted)

variable [DoubleText]

mutual

/-- The tokens of a value. -/
def tokens : Value → List Bytes
  | .null => [lit "null"]
  | .bool b => [if b then lit "true" else lit "false"]
  | .int32 i => [Numeral.to_string i.toInt ++ lit "i32"]
  | .int64 i => [Numeral.to_string i.toInt ++ lit "i64"]
  | .double d => [DoubleText.to_string d]
  | .string s => [quoted s]
  | .array xs => [0x5b] :: (elementsTokens false xs ++ [[0x5d]])
  | .object ms => [0x7b] :: (membersTokens false ms ++ [[0x7d]])

/-- The tokens of elements, the first of them after a comma if there were others before. -/
def elementsTokens : Bool → List Value → List Bytes
  | _, [] => []
  | more, x :: xs => (if more then [[0x2c]] else []) ++ (tokens x ++ elementsTokens true xs)

def membersTokens : Bool → List (Bytes × Value) → List Bytes
  | _, [] => []
  | more, (key, x) :: ms => (if more then [[0x2c]] else []) ++
      ((0x22 :: (key ++ [0x22])) :: [0x3a] :: (tokens x ++ membersTokens true ms))

end

theorem flatten_elementsTokens {xs : List Value} (hx : ∀ x ∈ xs, (tokens x).flatten = text x)
    (more : Bool) : (elementsTokens more xs).flatten = elementsText more xs := by
  induction xs generalizing more with
  | nil => simp [elementsTokens, elementsText]
  | cons x xs ih =>
      have hx' := hx x List.mem_cons_self
      have ih := ih (fun y hy ↦ hx y (List.mem_cons_of_mem x hy)) true
      cases more <;> simp [elementsTokens, elementsText, hx', ih, lit_comma]

theorem flatten_membersTokens {ms : List (Bytes × Value)}
    (hx : ∀ m ∈ ms, (tokens m.2).flatten = text m.2) (more : Bool) :
    (membersTokens more ms).flatten = membersText more ms := by
  induction ms generalizing more with
  | nil => simp [membersTokens, membersText]
  | cons m ms ih =>
      obtain ⟨key, x⟩ := m
      have hx' := hx (key, x) List.mem_cons_self
      have ih := ih (fun m hm ↦ hx m (List.mem_cons_of_mem _ hm)) true
      cases more <;> simp [membersTokens, membersText, hx', ih, lit_comma, lit_colon]

/-- Without gaps the tokens are the compact text. -/
theorem flatten_tokens (v : Value) : (tokens v).flatten = text v := by
  induction v using Value.induction with
  | null => simp [tokens, text]
  | bool b => simp [tokens, text]
  | int32 i => simp [tokens, text]
  | int64 i => simp [tokens, text]
  | double d => simp [tokens, text]
  | string s => simp [tokens, text]
  | array xs ih => simp [tokens, text, flatten_elementsTokens ih]
  | object ms ih => simp [tokens, text, flatten_membersTokens ih]

theorem tokens_ne_nil (v : Value) : tokens v ≠ [] := by
  cases v <;> simp [tokens]

end RpcLearning.Json
