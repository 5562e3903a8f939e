import ChartParse.Text.Utf8
import Mathlib.Data.List.Basic

/-!
Decoding what has been encoded.

The decoder goes through the bytes of a character one by one, holding them until the last has come
(`foldlM_step_character`), and so through the bytes of a text. Reads may end in the middle of a
character, and positions start anew with each read, but neither shows in the text.

Main statement: `decode_encode`, encoded text is well-formed and reads back.
-/

namespace ChartParse.Text.Utf8

/-- The bytes of a text. -/
def encode (text : List Char) : List UInt8 :=
  text.flatMap String.utf8EncodeChar

/-! ### One character -/

/-- Each of the bytes goes on with those before it. -/
def continuesAll (held : List UInt8) : List UInt8 → Bool
  | [] => true
  | byte :: later => continues held byte && continuesAll (held ++ [byte]) later

/-- A byte that goes on with what is held ends a character or is held as well. -/
theorem step_eq_ok {text : List Char} {held : List UInt8} {position : Nat} {byte : UInt8}
    (goesOn : continues held byte = true) :
    Decoder.step ⟨text, held, position⟩ byte =
      if (held ++ [byte]).length = sequenceLength ((held ++ [byte]).headD 0) then
        .ok ⟨Char.ofNat (codePoint (held ++ [byte])) :: text, [],
          position + (held ++ [byte]).length⟩
      else .ok ⟨text, held ++ [byte], position⟩ := by
  simp only [Decoder.step, goesOn, Bool.not_true, Bool.false_eq_true, if_false]

theorem foldlM_step_character {text : List Char} {held rest : List UInt8} {position : Nat}
    (more : rest ≠ []) (goesOn : continuesAll held rest = true)
    (length : (held ++ rest).length = sequenceLength ((held ++ rest).headD 0)) :
    rest.foldlM Decoder.step ⟨text, held, position⟩ =
      .ok ⟨Char.ofNat (codePoint (held ++ rest)) :: text, [], position + (held ++ rest).length⟩ := by
  induction rest generalizing held with
  | nil => exact absurd rfl more
  | cons byte later ih =>
    obtain ⟨next, after⟩ := Bool.and_eq_true_iff.1 goesOn
    rw [List.foldlM_cons, step_eq_ok next]
    cases later with
    | nil =>
      rw [if_pos length]
      rfl
    | cons second others =>
      have whole : held ++ byte :: second :: others = held ++ [byte] ++ second :: others := by simp
      rw [whole] at length ⊢
      -- The first byte says how many there are, and there are more to come.
      have first : (held ++ [byte] ++ second :: others).headD 0 = (held ++ [byte]).headD 0 := by
        cases held <;> rfl
      have short : (held ++ [byte]).length ≠ sequenceLength ((held ++ [byte]).headD 0) := by
        rw [← first, ← length]
        simp only [List.length_append, List.length_cons]
        omega
      rw [if_neg short]
      exact ih (List.cons_ne_nil _ _) after length

/-! ### The bytes of a character -/

theorem sequenceLength_eq (lead : UInt8) :
    sequenceLength lead =
      if lead.toNat ≤ 0x7F then 1 else if lead.toNat < 0xC2 then 0 else if lead.toNat ≤ 0xDF then 2
      else if lead.toNat ≤ 0xEF then 3 else if lead.toNat ≤ 0xF4 then 4 else 0 := rfl

theorem isContinuation_iff {byte : UInt8} :
    isContinuation byte = true ↔ 0x80 ≤ byte.toNat ∧ byte.toNat ≤ 0xBF := by
  simp [isContinuation, UInt8.le_iff_toNat_le]

theorem isSecond_iff {lead byte : UInt8} :
    isSecond lead byte = true ↔ (0x80 ≤ byte.toNat ∧ byte.toNat ≤ 0xBF) ∧
      (lead.toNat = 0xE0 → 0xA0 ≤ byte.toNat) ∧ (lead.toNat = 0xF0 → 0x90 ≤ byte.toNat) ∧
      (lead.toNat = 0xED → byte.toNat ≤ 0x9F) ∧ (lead.toNat = 0xF4 → byte.toNat ≤ 0x8F) := by
  simp only [isSecond, Bool.and_eq_true, decide_eq_true_eq, UInt8.le_iff_toNat_le,
    ← UInt8.toNat_inj, UInt8.reduceToNat]
  split_ifs <;> simp only [UInt8.reduceToNat] <;> omega

theorem isSurrogate_iff {lead second : UInt8} :
    isSurrogate [lead, second] = true ↔
      lead.toNat = 0xED ∧ 0xA0 ≤ second.toNat ∧ second.toNat ≤ 0xBF := by
  simp [isSurrogate, UInt8.le_iff_toNat_le, ← UInt8.toNat_inj, and_assoc]

theorem sequenceLength_encode (c : Char) :
    (String.utf8EncodeChar c).length = sequenceLength ((String.utf8EncodeChar c).headD 0) := by
  have valid : c.val.toNat < 0xD800 ∨ 0xDFFF < c.val.toNat ∧ c.val.toNat < 0x110000 := c.valid
  rw [String.utf8EncodeChar]
  generalize c.val.toNat = v at valid
  split_ifs with one two three
  all_goals
    simp only [List.headD_cons, List.length_cons, List.length_nil, sequenceLength_eq,
      UInt8.toNat_ofNat']
    split_ifs <;> omega

theorem codePoint_encode (c : Char) : codePoint (String.utf8EncodeChar c) = c.toNat := by
  have valid : c.val.toNat < 0xD800 ∨ 0xDFFF < c.val.toNat ∧ c.val.toNat < 0x110000 := c.valid
  change codePoint (String.utf8EncodeChar c) = c.val.toNat
  rw [String.utf8EncodeChar]
  generalize c.val.toNat = v at valid
  split_ifs with one two three
  · change (UInt8.ofNat v).toNat = v
    rw [UInt8.toNat_ofNat']
    omega
  · change ((UInt8.ofNat _).toNat - 0xC0) * 0x40 + ((UInt8.ofNat _).toNat - 0x80) = v
    simp only [UInt8.toNat_ofNat']
    omega
  · change (((UInt8.ofNat _).toNat - 0xE0) * 0x40 + ((UInt8.ofNat _).toNat - 0x80)) * 0x40 +
      ((UInt8.ofNat _).toNat - 0x80) = v
    simp only [UInt8.toNat_ofNat']
    omega
  · change ((((UInt8.ofNat _).toNat - 0xF0) * 0x40 + ((UInt8.ofNat _).toNat - 0x80)) * 0x40 +
      ((UInt8.ofNat _).toNat - 0x80)) * 0x40 + ((UInt8.ofNat _).toNat - 0x80) = v
    simp only [UInt8.toNat_ofNat']
    omega

theorem continuesAll_encode (c : Char) : continuesAll [] (String.utf8EncodeChar c) = true := by
  have valid : c.val.toNat < 0xD800 ∨ 0xDFFF < c.val.toNat ∧ c.val.toNat < 0x110000 := c.valid
  have starts := sequenceLength_encode c
  rw [String.utf8EncodeChar] at starts ⊢
  generalize c.val.toNat = v at valid starts
  split_ifs at starts ⊢ with one two three
  all_goals
    simp only [List.length_cons, List.length_nil, List.headD_cons] at starts
    simp only [continuesAll, continues, ← starts, List.nil_append, List.cons_append,
      Bool.and_eq_true, Bool.or_eq_true, Bool.not_eq_true', ← Bool.not_eq_true, isSecond_iff,
      isContinuation_iff, isSurrogate_iff, UInt8.toNat_ofNat', and_true]
  · decide
  · exact ⟨by decide, by omega⟩
  · exact ⟨by decide, by omega⟩
  · exact ⟨by decide, by omega, by omega, by omega, nofun⟩

theorem foldlM_step_encode (text before : List Char) (position : Nat) :
    ∃ after, (encode text).foldlM Decoder.step ⟨before, [], position⟩ =
      .ok ⟨text.reverse ++ before, [], after⟩ := by
  induction text generalizing before position with
  | nil => exact ⟨position, rfl⟩
  | cons c rest ih =>
    have first : (String.utf8EncodeChar c).foldlM Decoder.step ⟨before, [], position⟩ =
        .ok ⟨Char.ofNat (codePoint (String.utf8EncodeChar c)) :: before, [],
          position + (String.utf8EncodeChar c).length⟩ :=
      foldlM_step_character String.utf8EncodeChar_ne_nil (continuesAll_encode c)
        (sequenceLength_encode c)
    rw [codePoint_encode, Char.ofNat_toNat] at first
    obtain ⟨after, later⟩ := ih (c :: before) (position + (String.utf8EncodeChar c).length)
    refine ⟨after, ?_⟩
    rw [encode, List.flatMap_cons, List.foldlM_append, first]
    rw [List.reverse_cons, List.append_assoc]
    exact later

/-! ### Reads -/

theorem flatten_reads {size : Nat} (positive : 0 < size) (bytes : List UInt8) :
    (reads size bytes).flatten = bytes := by
  have taken (count : Nat) : ((List.range count).map fun k =>
      (bytes.drop (k * size)).take size).flatten = bytes.take (count * size) := by
    induction count with
    | zero => simp
    | succ count ih =>
      rw [List.range_succ, List.map_append, List.flatten_append, ih, Nat.succ_mul, List.take_add]
      simp
  have cover := Nat.div_add_mod (bytes.length + size - 1) size
  have rest := Nat.mod_lt (bytes.length + size - 1) positive
  rw [reads, taken, List.take_of_length_le]
  rw [Nat.mul_comm]
  omega

/-- Positions make no difference to what is decoded. -/
theorem step_of_position {decoder next : Decoder} {byte : UInt8}
    (done : decoder.step byte = .ok next) (position : Nat) :
    ∃ after, Decoder.step { decoder with position := position } byte =
      .ok { next with position := after } := by
  obtain ⟨text, held, before⟩ := decoder
  cases goesOn : continues held byte with
  | false => simp [Decoder.step, goesOn] at done
  | true =>
    rw [step_eq_ok goesOn] at done ⊢
    split at done
    next ends =>
      cases done
      exact ⟨_, if_pos ends⟩
    next more =>
      cases done
      exact ⟨_, if_neg more⟩

theorem foldlM_step_of_position {bytes : List UInt8} {decoder final : Decoder}
    (done : bytes.foldlM Decoder.step decoder = .ok final) (position : Nat) :
    ∃ after, bytes.foldlM Decoder.step { decoder with position := position } =
      .ok { final with position := after } := by
  induction bytes generalizing decoder position with
  | nil =>
    cases done
    exact ⟨position, rfl⟩
  | cons byte rest ih =>
    rw [List.foldlM_cons] at done ⊢
    cases first : decoder.step byte with
    | error malformed =>
      rw [first] at done
      cases done
    | ok next =>
      rw [first] at done
      obtain ⟨between, same⟩ := step_of_position first position
      rw [same]
      exact ih done between

/-- Where the reads end makes no difference if all of the bytes are well-formed. -/
theorem run_of_flatten {chunks : List (List UInt8)} {decoder final : Decoder}
    (done : chunks.flatten.foldlM Decoder.step decoder = .ok final) (whole : final.held = []) :
    decoder.run chunks = (final.text.reverse, none) := by
  induction chunks generalizing decoder final with
  | nil =>
    cases done
    simp [Decoder.run, Decoder.atEnd, whole]
  | cons read later ih =>
    rw [List.flatten_cons, List.foldlM_append] at done
    cases first : read.foldlM Decoder.step decoder with
    | error malformed =>
      rw [first] at done
      cases done
    | ok decoded =>
      rw [first] at done
      obtain ⟨after, same⟩ := foldlM_step_of_position done 0
      have read := ih same whole
      rw [Decoder.run, first]
      exact read

/-! ### Main result -/

theorem decode_encode (text : List Char) : decode (encode text) = (text, none) := by
  obtain ⟨after, done⟩ := foldlM_step_encode text [] 0
  rw [← flatten_reads (Nat.succ_pos 8191) (encode text)] at done
  have read := run_of_flatten done rfl
  simpa [decode, readSize] using read

end ChartParse.Text.Utf8
