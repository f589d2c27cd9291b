import ContentTypes.Item.Flags
import ContentTypes.Proofs.Text.Reading

/-! # The text of flags is read back

Every byte of flags is read from its text (`ofText?_text`), the bits without a name too. The parts of the
text hold neither bars nor blanks, so that they are found again; each is read as the flags it was written
for (`mapM_part?_parts`), and these join to the byte (`foldl_summands`). -/

namespace ContentTypes.ItemFlags

open Text (hexDigits hexDigit)

/-! ### Parts -/

theorem hex?_hexDigits (n : Nat) : hex? (hexDigits n) = some n := by
  induction n using Nat.strongRecOn with
  | ind n ih =>
    rw [hexDigits]
    split
    · next h => simp [hex?, Text.hexDigit?_hexDigit h]
    · next h =>
      have hlow : n % 16 < 16 := Nat.mod_lt _ (by decide)
      have hhigh : hex? (hexDigits (n / 16)) = some (n / 16) := ih _ (by omega)
      rw [hex?, List.foldlM_append, ← hex?, hhigh]
      simp [Text.hexDigit?_hexDigit hlow]
      omega

/-- The flags that the parts of a text stand for. -/
def summands (f : ItemFlags) : List ItemFlags :=
  (known.filter fun k => f.contains k.2).map (·.2) ++ if f.unknownBits == 0 then [] else [⟨f.unknownBits⟩]

/-- What the parts stand for joins to the byte; there are 256 of them to check. -/
theorem foldl_summands (f : ItemFlags) : f.summands.foldl union .empty = f := by
  have hbytes : ∀ n : Fin 256, (summands ⟨.ofNat n⟩).foldl union .empty = ⟨.ofNat n⟩ := by decide +kernel
  simpa using hbytes ⟨f.bits.toNat, f.bits.toNat_lt⟩

theorem part?_known : ∀ k ∈ known, part? k.1.toList = some k.2 := by decide

theorem exists_of_mem_hexDigits {n : Nat} {c : Char} (h : c ∈ hexDigits n) : ∃ d < 16, c = hexDigit d := by
  induction n using Nat.strongRecOn with
  | ind n ih =>
    rw [hexDigits] at h
    split at h
    · next hn => exact ⟨n, hn, List.mem_singleton.1 h⟩
    · rcases List.mem_append.1 h with h | h
      · exact ih _ (by omega) h
      · exact ⟨n % 16, Nat.mod_lt _ (by decide), List.mem_singleton.1 h⟩

theorem hexDigit_plain : ∀ d < 16, Text.isBlank (hexDigit d) = false ∧ hexDigit d ≠ '|' ∧ hexDigit d ≠ '+' := by
  decide

theorem hexDigits_ne_nil (n : Nat) : hexDigits n ≠ [] := by
  rw [hexDigits]
  split <;> simp

theorem byte?_hexDigits (b : UInt8) : byte? (hexDigits b.toNat) = some b := by
  rcases hdigits : hexDigits b.toNat with _ | ⟨c, rest⟩
  · exact absurd hdigits (hexDigits_ne_nil _)
  · have hplus : c ≠ '+' := by
      have hmem : c ∈ hexDigits b.toNat := by simp [hdigits]
      obtain ⟨d, hd, rfl⟩ := exists_of_mem_hexDigits hmem
      exact hexDigit_plain d hd |>.2.2
    have hvalue : hex? (c :: rest) = some b.toNat := by rw [← hdigits, hex?_hexDigits]
    rw [byte?]
    · simp [hvalue, b.toNat_lt]
    · exact fun _ h => hplus (List.cons.inj h).1

theorem part?_hexDigits (b : UInt8) : part? ("0x" ++ String.ofList (hexDigits b.toNat)).toList = some ⟨b⟩ := by
  rw [String.toList_append]
  show (byte? (String.ofList (hexDigits b.toNat)).toList).map _ = _
  rw [String.toList_ofList, byte?_hexDigits, Option.map_some]

theorem mapM_part?_parts (f : ItemFlags) : (f.parts.map String.toList).mapM part? = some f.summands := by
  have hnames : (f.names.map String.toList).mapM part? =
      some ((known.filter fun k => f.contains k.2).map (·.2)) := by
    refine Text.mapM_of_forall₂ ?_
    rw [names, List.map_map, List.forall₂_map_left_iff, List.forall₂_map_right_iff, List.forall₂_same]
    exact fun k hk => part?_known k (List.mem_of_mem_filter hk)
  rw [parts, List.map_append, List.mapM_append, hnames, summands]
  split
  · rfl
  · rw [List.map_singleton, List.mapM_cons, part?_hexDigits]
    rfl

theorem part_known : ∀ k ∈ known, Text.Part k.1.toList := by
  simp [known, Text.Part, Text.isBlank]

theorem part_hexDigits (n : Nat) : Text.Part ("0x" ++ String.ofList (hexDigits n)).toList := by
  rw [String.toList_append]
  refine ⟨List.cons_ne_nil _ _, fun c hc => ?_⟩
  have hmark : ∀ c ∈ "0x".toList, Text.isBlank c = false ∧ c ≠ '|' := by simp [Text.isBlank]
  rcases List.mem_append.1 hc with hc | hc
  · exact hmark c hc
  · rw [String.toList_ofList] at hc
    obtain ⟨d, hd, rfl⟩ := exists_of_mem_hexDigits hc
    exact ⟨(hexDigit_plain d hd).1, (hexDigit_plain d hd).2.1⟩

theorem part_of_mem_parts (f : ItemFlags) : ∀ p ∈ f.parts, Text.Part p.toList := by
  intro p hp
  rcases List.mem_append.1 hp with hp | hp
  · obtain ⟨k, hk, rfl⟩ := List.mem_map.1 hp
    exact part_known k (List.mem_of_mem_filter hk)
  · split at hp
    · cases hp
    · obtain rfl := List.mem_singleton.1 hp
      exact part_hexDigits _

/-- **Flags are read back from their text**, bits without a name too. -/
theorem ofText?_text (f : ItemFlags) : ofText? f.text = some f := by
  have hread := mapM_part?_parts f
  have hpart := part_of_mem_parts f
  rcases hparts : f.parts with _ | ⟨p, ps⟩
  · -- No part is written: the text is empty, and so are the flags.
    rw [hparts] at hread
    have hempty : ItemFlags.empty = f := by
      simpa [← Option.some.inj hread] using foldl_summands f
    rw [text, hparts, ← hempty]
    rfl
  · rw [hparts] at hread hpart
    have htext : f.text.toList = p.toList ++ (ps.map String.toList).flatMap (" | ".toList ++ ·) := by
      rw [text, hparts, Text.toList_intercalate, List.flatMap_map]
    have hfields : (Text.fields '|' f.text.toList).map Text.trim = (p :: ps).map String.toList := by
      have hparts : ∀ q ∈ p.toList :: ps.map String.toList, Text.Part q := List.forall_mem_map.2 hpart
      have hfound := Text.map_trim_fields Text.blanks_nil hparts
      rw [htext]
      exact hfound
    have htrim : (Text.trim f.text.toList).isEmpty = false := by
      rw [htext]
      simpa using (hpart p List.mem_cons_self).trim_ne_nil _
    rw [ofText?, htrim, hfields, hread]
    exact congrArg some (foldl_summands f)

end ContentTypes.ItemFlags
