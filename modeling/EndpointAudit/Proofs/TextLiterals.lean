import EndpointAudit.Json.Printer
import EndpointAudit.Json.Text

namespace EndpointAudit.Json

variable {c d : Char} {cs rest : List Char}

/-- Every hexadecimal digit that is written is read as its value. -/
theorem hexValue?_hexDigit : ∀ n < 16, hexValue? (hexDigit n) = some n := by
  decide

theorem readText_escape (h : readEscape cs = .ok (d,rest)) :
    readText ('\\' :: cs) = (readText rest).map fun (ds,after) => (d :: ds,after) := by
  rw [readText]
  simp only [Char.reduceEq,↓reduceIte]
  split
  · rename_i hf
    rw [h] at hf
    cases hf
  · rename_i hd
    rw [h] at hd
    cases hd
    rfl

theorem skipText_escape (h : skipEscape cs = .ok rest) : skipText ('\\' :: cs) = skipText rest := by
  rw [skipText]
  simp only [Char.reduceEq,↓reduceIte]
  split
  · rename_i hf
    rw [h] at hf
    cases hf
  · rename_i hr
    rw [h] at hr
    cases hr
    rfl

theorem readText_shortEscape (h : shortEscape? c = some d) (cs : List Char) :
    readText ('\\' :: c :: cs) = (readText cs).map fun (ds,after) => (d :: ds,after) := by
  refine readText_escape ?_
  have hu : c ≠ 'u' := by
    intro hc
    rw [hc] at h
    cases h
  unfold readEscape
  split <;> simp_all

theorem skipText_shortEscape (h : shortEscape? c = some d) (cs : List Char) :
    skipText ('\\' :: c :: cs) = skipText cs := by
  refine skipText_escape ?_
  have hu : c ≠ 'u' := by
    intro hc
    rw [hc] at h
    cases h
  unfold skipEscape
  split <;> simp_all

theorem hexEscape_control (h : c.toNat < 32) (cs : List Char) :
    hexEscape ('0' :: '0' :: hexDigit (c.toNat / 16) :: hexDigit (c.toNat % 16) :: cs) =
      .ok (c.toNat,cs) := by
  have h0 : hexValue? '0' = some 0 := rfl
  have hn : ((0 * 16 + 0) * 16 + c.toNat / 16) * 16 + c.toNat % 16 = c.toNat := by omega
  simp only [hexEscape,h0,hexValue?_hexDigit (c.toNat / 16) (by omega),
    hexValue?_hexDigit (c.toNat % 16) (by omega),hn]

theorem readEscape_control (h : c.toNat < 32) (cs : List Char) :
    readEscape ('u' :: '0' :: '0' :: hexDigit (c.toNat / 16) :: hexDigit (c.toNat % 16) :: cs) =
      .ok (c,cs) := by
  simp only [readEscape,hexEscape_control h]
  rw [if_neg (by omega),if_neg (by omega),Char.ofNat_toNat]

theorem skipEscape_control (h : c.toNat < 32) (cs : List Char) :
    skipEscape ('u' :: '0' :: '0' :: hexDigit (c.toNat / 16) :: hexDigit (c.toNat % 16) :: cs) =
      .ok cs := by
  simp only [skipEscape,hexEscape_control h]

/-- The three forms in which a character is written. -/
inductive WrittenAs (c : Char) : List Char → Prop
  | short {d : Char} (means : shortEscape? d = some c) : WrittenAs c ['\\',d]
  | control (low : c.toNat < 32) :
    WrittenAs c ['\\','u','0','0',hexDigit (c.toNat / 16),hexDigit (c.toNat % 16)]
  | itself (no_quote : c ≠ '"') (no_escape : c ≠ '\\') (high : ¬ c.toNat < 32) : WrittenAs c [c]

theorem escapedChar_writtenAs (c : Char) : WrittenAs c (escapedChar c) := by
  unfold escapedChar
  iterate 7
    split
    · rename_i hc
      subst hc
      exact .short rfl
  split
  · rename_i hlow
    exact .control hlow
  · rename_i hquote hback _ _ _ _ _ hlow
    exact .itself hquote hback hlow

theorem readText_escapedChar (c : Char) (cs : List Char) :
    readText (escapedChar c ++ cs) = (readText cs).map fun (ds,after) => (c :: ds,after) := by
  have hw := escapedChar_writtenAs c
  generalize escapedChar c = form at hw ⊢
  cases hw with
  | short means => exact readText_shortEscape means cs
  | control low => exact readText_escape (readEscape_control low cs)
  | itself no_quote no_escape high =>
    rw [List.singleton_append,readText]
    simp only [no_quote,no_escape,high,↓reduceIte]

theorem skipText_escapedChar (c : Char) (cs : List Char) :
    skipText (escapedChar c ++ cs) = skipText cs := by
  have hw := escapedChar_writtenAs c
  generalize escapedChar c = form at hw ⊢
  cases hw with
  | short means => exact skipText_shortEscape means cs
  | control low => exact skipText_escape (skipEscape_control low cs)
  | itself no_quote no_escape high =>
    rw [List.singleton_append,skipText]
    simp only [no_quote,no_escape,high,↓reduceIte]

theorem readText_escaped (s rest : List Char) :
    readText (escaped s ++ '"' :: rest) = .ok (s,rest) := by
  induction s with
  | nil =>
    rw [escaped,List.flatMap_nil,List.nil_append,readText]
    rfl
  | cons c s ih =>
    rw [escaped,List.flatMap_cons,List.append_assoc,readText_escapedChar,← escaped,ih]
    rfl

theorem skipText_escaped (s rest : List Char) :
    skipText (escaped s ++ '"' :: rest) = .ok rest := by
  induction s with
  | nil =>
    rw [escaped,List.flatMap_nil,List.nil_append,skipText]
    rfl
  | cons c s ih => rw [escaped,List.flatMap_cons,List.append_assoc,skipText_escapedChar,← escaped,ih]

end EndpointAudit.Json
