import Persea.BaseText
import Persea.BaseUtf8

/-! Text files read line by line. A reader that stops at the first line that is not valid UTF-8 sees, after whole
lines have been appended to a file of whole lines, the old lines and then the new ones. -/

namespace Base.Lines

open Text List Utf8

def stripCarriageReturn (line : List UInt8) : List UInt8 :=
  if line.getLast? = some '\r'.toUInt8 then line.dropLast else line

/-- The lines up to the first that cannot be decoded; the last one need not be ended. -/
def readLines (bytes : List UInt8) : List Text :=
  match _hsplit : splitOnce '\n'.toUInt8 bytes with
  | none => if bytes = [] then [] else (Utf8.decode bytes).toList
  | some (line, rest) =>
    match Utf8.decode (stripCarriageReturn line) with
    | none => []
    | some text => text :: readLines rest
termination_by bytes.length
decreasing_by exact splitOnce_length _hsplit

def Ended (text : Text) : Prop := text = [] ∨ text.getLast? = some '\n'

theorem newline_notMem_encode {text : Text} (h : '\n' ∉ text) : '\n'.toUInt8 ∉ Utf8.encode text := by
  rw [← List.count_eq_zero]
  rw [show '\n'.toUInt8 = UInt8.ofNat '\n'.toNat from rfl, count_encode '\n' (by decide), List.count_eq_zero]
  exact h

@[simp] theorem readLines_nil : readLines [] = [] := by
  rw [readLines]
  rfl

theorem readLines_of_line {line rest : List UInt8} (hline : '\n'.toUInt8 ∉ line) :
    readLines (line ++ '\n'.toUInt8 :: rest) =
      match Utf8.decode (stripCarriageReturn line) with
      | none => []
      | some text => text :: readLines rest := by
  rw [readLines]
  split
  · rename_i hsplit
    rw [splitOnce_append hline] at hsplit
    contradiction
  · rename_i line' rest' hsplit
    rw [splitOnce_append hline] at hsplit
    cases hsplit
    rfl

theorem stripCarriageReturn_of_ne {line : Text} (h : line.getLast? ≠ some '\r') :
    stripCarriageReturn (Utf8.encode line) = Utf8.encode line := by
  unfold stripCarriageReturn
  rw [if_neg]
  intro hlast
  rcases eq_nil_or_concat line with rfl | ⟨front, c, rfl⟩
  · contradiction
  · rw [concat_eq_append, encode_append, encode_cons, encode_nil, append_nil,
      getLast?_append_of_ne_nil _ (encodeChar_ne_nil c)] at hlast
    have hc : c.toNat = '\r'.toUInt8.toNat := encodeChar_of_mem_ascii (mem_of_getLast? hlast) (by decide)
    have hcr : c = '\r' := Char.ext (UInt32.toNat_inj.mp hc)
    exact h (by rw [hcr]; simp)

theorem stripCarriageReturn_encode (line : Text) :
    ∃ stripped, stripCarriageReturn (Utf8.encode line) = Utf8.encode stripped := by
  by_cases h : line.getLast? = some '\r'
  · obtain ⟨front, rfl⟩ := getLast?_eq_some_iff.mp h
    refine ⟨front, ?_⟩
    have hencode : Utf8.encode (front ++ ['\r']) = Utf8.encode front ++ ['\r'.toUInt8] := by
      rw [encode_append]
      rfl
    rw [stripCarriageReturn, hencode, if_pos (by simp), dropLast_concat]
  · exact ⟨line, stripCarriageReturn_of_ne h⟩

theorem Ended.tail {line rest : Text} (h : Ended (line ++ '\n' :: rest)) : Ended rest := by
  cases rest with
  | nil => exact .inl rfl
  | cons c rest =>
    rcases h with h | h
    · simp at h
    · exact .inr (by simpa [getLast?_append] using h)

theorem Ended.append {left right : Text} (hleft : Ended left) (hright : Ended right) : Ended (left ++ right) := by
  rcases hright with rfl | hright
  · rwa [append_nil]
  · exact .inr (by rw [getLast?_append, hright]; rfl)

/-- **Appending to a file of whole lines** adds lines after its own. -/
theorem readLines_append {text : Text} (h : Ended text) (more : List UInt8) :
    readLines (Utf8.encode text ++ more) = readLines (Utf8.encode text) ++ readLines more := by
  induction hlength : text.length using Nat.strong_induction_on generalizing text with
  | _ n ih =>
    cases hsplit : splitOnce '\n' text with
    | none =>
      -- no line break: only the empty text has whole lines
      have hnil : text = [] := by
        rcases h with h | h
        · exact h
        · exact absurd (mem_of_getLast? h) (splitOnce_eq_none.mp hsplit)
      rw [hnil, encode_nil, readLines_nil]
      rfl
    | some cut =>
      obtain ⟨line, rest⟩ := cut
      obtain ⟨rfl, hline⟩ := splitOnce_eq_some.mp hsplit
      have hbytes : Utf8.encode (line ++ '\n' :: rest) = Utf8.encode line ++ '\n'.toUInt8 :: Utf8.encode rest := by
        rw [encode_append]
        rfl
      obtain ⟨stripped, hstripped⟩ := stripCarriageReturn_encode line
      have hrest := ih rest.length (by rw [← hlength, length_append, length_cons]; omega) h.tail rfl
      rw [hbytes, append_assoc, cons_append, readLines_of_line (newline_notMem_encode hline),
        readLines_of_line (newline_notMem_encode hline), hstripped, decode_encode]
      simp only [hrest, cons_append]

theorem readLines_singleton {line : Text} (hline : '\n' ∉ line) (hlast : line.getLast? ≠ some '\r') :
    readLines (Utf8.encode (line ++ ['\n'])) = [line] := by
  have hbytes : Utf8.encode (line ++ ['\n']) = Utf8.encode line ++ '\n'.toUInt8 :: [] := by
    rw [encode_append]
    rfl
  rw [hbytes, readLines_of_line (newline_notMem_encode hline), stripCarriageReturn_of_ne hlast, decode_encode]
  simp only [readLines_nil]

end Base.Lines
