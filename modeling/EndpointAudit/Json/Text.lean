import EndpointAudit.Json.Fault

namespace EndpointAudit.Json

def hexValue? (c : Char) : Option Nat :=
  if '0' ≤ c ∧ c ≤ '9' then some (c.toNat - 48)
  else if 'a' ≤ c ∧ c ≤ 'f' then some (c.toNat - 87)
  else if 'A' ≤ c ∧ c ≤ 'F' then some (c.toNat - 55)
  else none

def byteCount (cs : List Char) : Nat :=
  cs.foldl (fun n c => n + c.utf8Size) 0

/-- The value of four hexadecimal digits. With fewer than four bytes left the input has ended. -/
def hexEscape (cs : List Char) : Except Fault (Nat × List Char) :=
  match cs with
  | a :: b :: c :: d :: rest =>
    match hexValue? a,hexValue? b,hexValue? c,hexValue? d with
    | some a,some b,some c,some d => .ok (((a * 16 + b) * 16 + c) * 16 + d,rest)
    | _,_,_,_ => .error .malformed
  | cs => if byteCount cs < 4 then .error .ended else .error .malformed

theorem length_of_hexEscape {cs rest : List Char} {n : Nat} (h : hexEscape cs = .ok (n,rest)) :
    rest.length < cs.length := by
  unfold hexEscape at h
  split at h
  · split at h
    · obtain ⟨-,rfl⟩ := Prod.mk.injEq .. ▸ Except.ok.inj h
      simp only [List.length_cons]
      omega
    · simp at h
  · split at h <;> simp at h

def shortEscape? (c : Char) : Option Char :=
  match c with
  | '"' => some '"'
  | '\\' => some '\\'
  | '/' => some '/'
  | 'b' => some '\x08'
  | 'f' => some '\x0c'
  | 'n' => some '\n'
  | 'r' => some '\r'
  | 't' => some '\t'
  | _ => none

/-- The second half of a surrogate pair, whose first half has been read. -/
def trailingEscape (high : Nat) : List Char → Except Fault (Char × List Char)
  | [] => .error .ended
  | ['\\'] => .error .ended
  | '\\' :: 'u' :: cs =>
    match hexEscape cs with
    | .error f => .error f
    | .ok (low,rest) =>
      if 0xDC00 ≤ low ∧ low ≤ 0xDFFF then
        .ok (Char.ofNat ((high - 0xD800) * 0x400 + (low - 0xDC00) + 0x10000),rest)
      else .error .malformed
  | _ => .error .malformed

/-- The character that an escape stands for; the backslash has been read. -/
def readEscape : List Char → Except Fault (Char × List Char)
  | [] => .error .ended
  | 'u' :: cs =>
    match hexEscape cs with
    | .error f => .error f
    | .ok (n,rest) =>
      if 0xDC00 ≤ n ∧ n ≤ 0xDFFF then .error .malformed
      else if 0xD800 ≤ n ∧ n ≤ 0xDBFF then trailingEscape n rest
      else .ok (Char.ofNat n,rest)
  | c :: cs =>
    match shortEscape? c with
    | some d => .ok (d,cs)
    | none => .error .malformed

def skipEscape : List Char → Except Fault (List Char)
  | [] => .error .ended
  | 'u' :: cs =>
    match hexEscape cs with
    | .error f => .error f
    | .ok (_,rest) => .ok rest
  | c :: cs => if (shortEscape? c).isSome then .ok cs else .error .malformed

theorem length_of_trailingEscape {high : Nat} {cs rest : List Char} {c : Char}
    (h : trailingEscape high cs = .ok (c,rest)) : rest.length < cs.length := by
  unfold trailingEscape at h
  split at h
  · simp at h
  · simp at h
  · next cs =>
    split at h
    · simp at h
    · next low r hx =>
      split at h
      · obtain ⟨-,rfl⟩ := Prod.mk.injEq .. ▸ Except.ok.inj h
        have := length_of_hexEscape hx
        simp only [List.length_cons]
        omega
      · simp at h
  · simp at h

theorem length_of_readEscape {cs rest : List Char} {c : Char}
    (h : readEscape cs = .ok (c,rest)) : rest.length < cs.length := by
  unfold readEscape at h
  split at h
  · simp at h
  · split at h
    · simp at h
    · next n r hx =>
      have hr := length_of_hexEscape hx
      split at h
      · simp at h
      · split at h
        · have := length_of_trailingEscape h
          simp only [List.length_cons]
          omega
        · obtain ⟨-,rfl⟩ := Prod.mk.injEq .. ▸ Except.ok.inj h
          simp only [List.length_cons]
          omega
  · split at h
    · obtain ⟨-,rfl⟩ := Prod.mk.injEq .. ▸ Except.ok.inj h
      simp
    · simp at h

theorem length_of_skipEscape {cs rest : List Char} (h : skipEscape cs = .ok rest) :
    rest.length < cs.length := by
  unfold skipEscape at h
  split at h
  · simp at h
  · split at h
    · simp at h
    · next hx =>
      obtain rfl := Except.ok.inj h
      have := length_of_hexEscape hx
      simp only [List.length_cons]
      omega
  · split at h
    · obtain rfl := Except.ok.inj h
      simp
    · simp at h

/-- Reads up to the closing quote: the characters, and what follows the quote. -/
def readText (cs : List Char) : Except Fault (List Char × List Char) :=
  match cs with
  | [] => .error .ended
  | c :: cs =>
    if c = '"' then .ok ([],cs)
    else if c = '\\' then
      match _h : readEscape cs with
      | .error f => .error f
      | .ok (d,rest) => (readText rest).map fun (ds,after) => (d :: ds,after)
    else if c.toNat < 32 then .error .malformed
    else (readText cs).map fun (ds,after) => (c :: ds,after)
termination_by cs.length
decreasing_by
  · have := length_of_readEscape _h
    simp only [List.length_cons]
    omega
  · simp

/-- Finds the closing quote and returns what follows it. -/
def skipText (cs : List Char) : Except Fault (List Char) :=
  match cs with
  | [] => .error .ended
  | c :: cs =>
    if c = '"' then .ok cs
    else if c = '\\' then
      match _h : skipEscape cs with
      | .error f => .error f
      | .ok rest => skipText rest
    else if c.toNat < 32 then .error .malformed
    else skipText cs
termination_by cs.length
decreasing_by
  · have := length_of_skipEscape _h
    simp only [List.length_cons]
    omega
  · simp

end EndpointAudit.Json
