import EndpointAudit.Json.Decode
import EndpointAudit.Proofs.NumeralLiterals
import EndpointAudit.Proofs.TextLiterals

namespace EndpointAudit.Json

/-- A number whose text is a number to the reader. -/
def Number.Legible (n : Number) : Prop :=
  ∃ n', n.reading = .ok n'

/-- A value that a document can hold: no more than so many brackets are open at once, the keys of an
object ascend, and its numbers are as wanted. -/
inductive WellFormed (number : Number → Prop) : Nat → Json → Prop
  | null {depth : Nat} : WellFormed number depth .null
  | bool {depth : Nat} (b : Bool) : WellFormed number depth (.bool b)
  | number {depth : Nat} {n : Number} (wanted : number n) : WellFormed number depth (.number n)
  | text {depth : Nat} (s : String) : WellFormed number depth (.text s)
  | array {depth : Nat} {items : List Json} (each : ∀ v ∈ items, WellFormed number depth v) :
    WellFormed number (depth + 1) (.array items)
  | object {depth : Nat} {members : List (String × Json)}
    (sorted : members.Pairwise fun m m' => m.1 < m'.1)
    (each : ∀ m ∈ members, WellFormed number depth m.2) :
    WellFormed number (depth + 1) (.object members)

/-- A value in which every number is as wanted. -/
inductive Numbered (number : Number → Prop) : Json → Prop
  | null : Numbered number .null
  | bool (b : Bool) : Numbered number (.bool b)
  | number {n : Number} (wanted : number n) : Numbered number (.number n)
  | text (s : String) : Numbered number (.text s)
  | array {items : List Json} (each : ∀ v ∈ items, Numbered number v) : Numbered number (.array items)
  | object {members : List (String × Json)} (each : ∀ m ∈ members, Numbered number m.2) :
    Numbered number (.object members)

theorem WellFormed.numbered {number : Number → Prop} {depth : Nat} {v : Json}
    (h : WellFormed number depth v) : Numbered number v := by
  induction h with
  | null => exact .null
  | bool b => exact .bool b
  | number wanted => exact .number wanted
  | text s => exact .text s
  | array _ ih => exact .array ih
  | object _ _ ih => exact .object ih

theorem WellFormed.imp {number number' : Number → Prop} {depth : Nat} {v : Json}
    (h : WellFormed number depth v) (hn : ∀ n, number n → number' n) :
    WellFormed number' depth v := by
  induction h with
  | null => exact .null
  | bool b => exact .bool b
  | number wanted => exact .number (hn _ wanted)
  | text s => exact .text s
  | array _ ih => exact .array ih
  | object sorted _ ih => exact .object sorted ih

mutual

/-- What stands in the text of a value. -/
def surface : Json → Surface
  | .null => .null
  | .bool b => .bool b
  | .number n => .number n.reading
  | .text s => .text (.ok s)
  | .array items => .array (surfaces items) .closed
  | .object members => .object (memberSurfaces members) .closed

def surfaces : List Json → List Surface
  | [] => []
  | v :: vs => surface v :: surfaces vs

def memberSurfaces : List (String × Json) → List (Except Fault String × Surface)
  | [] => []
  | (key,v) :: members => (.ok key,surface v) :: memberSurfaces members

end

theorem skipSpace_cons {c : Char} (h : isSpace c = false) (cs : List Char) :
    skipSpace (c :: cs) = c :: cs := by
  simp [skipSpace,h]

theorem skipSpace_lineBreak (pretty : Bool) (depth : Nat) (cs : List Char) :
    skipSpace (lineBreak pretty depth ++ cs) = skipSpace cs := by
  unfold skipSpace lineBreak
  cases pretty with
  | false => rfl
  | true =>
    refine List.dropWhile_append_of_pos ?_
    intro c hc
    rcases List.mem_cons.mp hc with rfl | hc
    · rfl
    · rw [List.eq_of_mem_replicate hc]
      rfl

theorem skipSpace_skipSpace (cs : List Char) : skipSpace (skipSpace cs) = skipSpace cs := by
  induction cs with
  | nil => rfl
  | cons c cs ih =>
    cases hc : isSpace c with
    | true => simpa [skipSpace,hc] using ih
    | false => rw [skipSpace_cons hc,skipSpace_cons hc]

/-- Blanks in front of a value do not count. -/
theorem readValue_skipSpace (fuel : Nat) (cs : List Char) :
    readValue fuel (skipSpace cs) = readValue fuel cs := by
  cases fuel with
  | zero => rfl
  | succ fuel =>
    unfold readValue
    rw [skipSpace_skipSpace]

theorem readValue_quotedText (fuel : Nat) (s : String) (rest : List Char) :
    readValue (fuel + 1) (quotedText s ++ rest) = ⟨.text (.ok s),some rest⟩ := by
  rw [quotedText,List.cons_append,List.append_assoc,List.singleton_append,readValue,
    skipSpace_cons rfl]
  simp only [textSurface,skipText_escaped,readText_escaped]
  simp [Except.map]

theorem Number.Legible.numeral {n : Number} (h : n.Legible) :
    ∃ m, scanNumeral n.chars = .ok (m,[]) ∧ m.value = n.reading := by
  obtain ⟨n',hn⟩ := h
  unfold Number.reading at hn ⊢
  split at hn
  · rename_i m hm
    exact ⟨m,hm,rfl⟩
  · cases hn

/-- What a number begins with, nothing else begins with. -/
theorem number_head {c : Char} (h : c = '-' ∨ (digit? c).isSome) :
    isSpace c = false ∧ c ≠ 'n' ∧ c ≠ 't' ∧ c ≠ 'f' ∧ c ≠ '"' ∧ c ≠ '[' ∧ c ≠ '\x7b' ∧
      c ≠ ']' := by
  have hne {d : Char} (hd : ¬ (d = '-' ∨ (digit? d).isSome)) : c ≠ d := fun hc => hd (hc ▸ h)
  refine ⟨?_,hne (by decide),hne (by decide),hne (by decide),hne (by decide),hne (by decide),
    hne (by decide),hne (by decide)⟩
  have hspace : c ≠ ' ' ∧ c ≠ '\t' ∧ c ≠ '\n' ∧ c ≠ '\r' :=
    ⟨hne (by decide),hne (by decide),hne (by decide),hne (by decide)⟩
  simp [isSpace,hspace]

theorem readValue_number {n : Number} (h : n.Legible) (fuel : Nat) {rest : List Char}
    (hr : Stops rest) : readValue (fuel + 1) (n.chars ++ rest) = ⟨.number n.reading,some rest⟩ := by
  obtain ⟨m,hm,hv⟩ := h.numeral
  obtain ⟨c,cs,hc,hhead⟩ := scanNumeral_head hm
  have hs := scanNumeral_append hm hr
  obtain ⟨hspace,hn,ht,hf,hq,ha,ho,_⟩ := number_head hhead
  have hguard : (decide (c = '-') || (digit? c).isSome) = true := by simpa using hhead
  rw [hc,List.cons_append] at hs ⊢
  rw [readValue,skipSpace_cons hspace]
  simp only [hguard,↓reduceIte,numberSurface,hs,hv,List.nil_append]

/-- The text of a value begins with a character that is no blank and closes no array. -/
theorem chars_head {v : Json} (h : Numbered Number.Legible v) (pretty : Bool)
    (level : Nat) : ∃ c cs, chars pretty level v = c :: cs ∧ isSpace c = false ∧ c ≠ ']' := by
  cases h with
  | null => exact ⟨_,_,rfl,by decide⟩
  | bool b => cases b <;> exact ⟨_,_,rfl,by decide⟩
  | number legible =>
    obtain ⟨m,hm,_⟩ := legible.numeral
    obtain ⟨c,cs,hc,hhead⟩ := scanNumeral_head hm
    obtain ⟨hspace,_,_,_,_,_,_,hclose⟩ := number_head hhead
    exact ⟨c,cs,hc,hspace,hclose⟩
  | text s => exact ⟨_,_,rfl,by decide⟩
  | @array items _ => cases items <;> exact ⟨_,_,rfl,by decide⟩
  | @object members _ => cases members <;> exact ⟨_,_,rfl,by decide⟩

/-- Twice the length of a text is never nothing. -/
theorem fuel_eq_succ {v : Json} (h : Numbered Number.Legible v)
    {pretty : Bool} {level fuel : Nat} (hf : 2 * (chars pretty level v).length ≤ fuel) :
    ∃ k, fuel = k + 1 := by
  obtain ⟨c,cs,hc,_⟩ := chars_head h pretty level
  rw [hc,List.length_cons] at hf
  exact ⟨fuel - 1,by omega⟩

/-- The text of a value is read as what stands in it, wherever it stands. -/
def Reads (v : Json) : Prop :=
  ∀ pretty level fuel rest, 2 * (chars pretty level v).length ≤ fuel → Stops rest →
    readValue fuel (chars pretty level v ++ rest) = ⟨surface v,some rest⟩

theorem stops_cons {c : Char} (h : digit? c = none ∧ c ≠ '.' ∧ c ≠ 'e' ∧ c ≠ 'E')
    (rest : List Char) : Stops (c :: rest) := by
  simpa [Stops] using h

theorem stops_lineBreak (pretty : Bool) (level : Nat) {rest : List Char} (h : Stops rest) :
    Stops (lineBreak pretty level ++ rest) := by
  cases pretty with
  | false => exact h
  | true => exact stops_cons (by decide) _

/-- What follows an item: the other items, the last line break and the bracket. -/
def itemsRest (pretty : Bool) (level : Nat) (items : List Json) (rest : List Char) : List Char :=
  itemsChars pretty (level + 1) items ++ (lineBreak pretty level ++ ']' :: rest)

theorem stops_itemsRest (pretty : Bool) (level : Nat) (items : List Json) (rest : List Char) :
    Stops (itemsRest pretty level items rest) := by
  cases items with
  | nil => exact stops_lineBreak pretty level (stops_cons (by decide) rest)
  | cons item items => exact stops_cons (by decide) _

section item

variable {v : Json} {pretty : Bool} {level fuel : Nat} {tail : List Char}

/-- An item that the bracket follows is the last one. -/
theorem readItems_last {rest : List Char}
    (hv : readValue fuel (chars pretty level v ++ tail) = ⟨surface v,some tail⟩)
    (ht : skipSpace tail = ']' :: rest) :
    readItems (fuel + 1) (chars pretty level v ++ tail) = ⟨([surface v],.closed),some rest⟩ := by
  rw [readItems,hv]
  simp only [ht]

/-- An item that a comma follows is followed by the other items. -/
theorem readItems_more {c : Char} {tail' next : List Char}
    (hv : readValue fuel (chars pretty level v ++ tail) = ⟨surface v,some tail⟩)
    (ht : skipSpace tail = ',' :: tail') (hn : skipSpace tail' = c :: next) (hc : c ≠ ']') :
    readItems (fuel + 1) (chars pretty level v ++ tail) =
      ⟨(surface v :: (readItems fuel (c :: next)).part.1,(readItems fuel (c :: next)).part.2),
        (readItems fuel (c :: next)).rest⟩ := by
  rw [readItems,hv]
  simp only [ht,hn]
  split
  · rename_i heq
    exact absurd (List.cons.inj heq).1 hc
  · rfl

end item

theorem readItems_chars {item : Json} {items : List Json}
    (hw : ∀ v ∈ item :: items, Numbered Number.Legible v)
    (hr : ∀ v ∈ item :: items, Reads v) (pretty : Bool) (level fuel : Nat) (rest : List Char)
    (hf : 2 * ((chars pretty (level + 1) item).length +
      (itemsChars pretty (level + 1) items).length) < fuel) :
    readItems fuel (chars pretty (level + 1) item ++ itemsRest pretty level items rest) =
      ⟨(surfaces (item :: items),.closed),some rest⟩ := by
  induction items generalizing item fuel with
  | nil =>
    obtain ⟨fuel,rfl⟩ : ∃ k, fuel = k + 1 := ⟨fuel - 1,by omega⟩
    have hitem := hr item List.mem_cons_self pretty (level + 1) fuel _ (by omega)
      (stops_itemsRest pretty level [] rest)
    refine readItems_last hitem ?_
    rw [itemsRest,itemsChars,List.nil_append,skipSpace_lineBreak,skipSpace_cons rfl]
  | cons next items ih =>
    obtain ⟨fuel,rfl⟩ : ∃ k, fuel = k + 1 := ⟨fuel - 1,by omega⟩
    have hitem := hr item List.mem_cons_self pretty (level + 1) fuel _ (by omega)
      (stops_itemsRest pretty level (next :: items) rest)
    obtain ⟨c,cs,hc,hspace,hclose⟩ := chars_head (hw next (by simp)) pretty (level + 1)
    have hnext := ih (fun v hv => hw v (List.mem_cons_of_mem _ hv))
      (fun v hv => hr v (List.mem_cons_of_mem _ hv)) fuel (by
        simp only [itemsChars,List.length_cons,List.length_append] at hf
        omega)
    have hcomma : skipSpace (itemsRest pretty level (next :: items) rest) = ',' ::
        (lineBreak pretty (level + 1) ++
          (chars pretty (level + 1) next ++ itemsRest pretty level items rest)) := by
      rw [itemsRest,itemsChars,List.cons_append,skipSpace_cons rfl]
      simp only [itemsRest,List.append_assoc]
    have hskip : skipSpace (lineBreak pretty (level + 1) ++
        (chars pretty (level + 1) next ++ itemsRest pretty level items rest)) =
          c :: (cs ++ itemsRest pretty level items rest) := by
      rw [skipSpace_lineBreak,hc,List.cons_append,skipSpace_cons hspace]
    rw [hc,List.cons_append] at hnext
    rw [readItems_more hitem hcomma hskip hclose,hnext]
    rfl

/-- A member of an object: its key, the colon and its value. -/
def memberChars (pretty : Bool) (level : Nat) (key : String) (v : Json) : List Char :=
  quotedText key ++ (colon pretty ++ chars pretty level v)

/-- What follows a member: the other members, the last line break and the bracket. -/
def membersRest (pretty : Bool) (level : Nat) (members : List (String × Json)) (rest : List Char) :
    List Char :=
  membersChars pretty (level + 1) members ++ (lineBreak pretty level ++ '\x7d' :: rest)

theorem stops_membersRest (pretty : Bool) (level : Nat) (members : List (String × Json))
    (rest : List Char) : Stops (membersRest pretty level members rest) := by
  cases members with
  | nil => exact stops_lineBreak pretty level (stops_cons (by decide) rest)
  | cons m members => exact stops_cons (by decide) _

theorem skipSpace_colon (pretty : Bool) (cs : List Char) :
    ∃ cs', skipSpace (colon pretty ++ cs) = ':' :: cs' ∧
      ∀ fuel, readValue fuel cs' = readValue fuel cs := by
  cases pretty with
  | false => exact ⟨cs,rfl,fun _ => rfl⟩
  | true =>
    refine ⟨' ' :: cs,rfl,fun fuel => ?_⟩
    rw [← readValue_skipSpace,← readValue_skipSpace fuel cs]
    rfl

section member

variable {v : Json} {pretty : Bool} {level fuel : Nat} {tail : List Char}

/-- A member that the bracket follows is the last one. -/
theorem readMembers_last (key : String) {rest : List Char}
    (hv : readValue fuel (chars pretty level v ++ tail) = ⟨surface v,some tail⟩)
    (ht : skipSpace tail = '\x7d' :: rest) :
    readMembers (fuel + 1) (memberChars pretty level key v ++ tail) =
      ⟨([(.ok key,surface v)],.closed),some rest⟩ := by
  obtain ⟨cs',hcolon,hcs'⟩ := skipSpace_colon pretty (chars pretty level v ++ tail)
  simp only [memberChars,quotedText,List.cons_append,List.append_assoc,List.nil_append]
  rw [readMembers]
  simp only [skipText_escaped,readText_escaped,hcolon,hcs',hv,ht]
  simp [Except.map]

/-- A member that a comma follows is followed by the other members. -/
theorem readMembers_more (key : String) {c : Char} {tail' next : List Char}
    (hv : readValue fuel (chars pretty level v ++ tail) = ⟨surface v,some tail⟩)
    (ht : skipSpace tail = ',' :: tail') (hn : skipSpace tail' = c :: next) (hc : c ≠ '\x7d') :
    readMembers (fuel + 1) (memberChars pretty level key v ++ tail) =
      ⟨((.ok key,surface v) :: (readMembers fuel (c :: next)).part.1,
        (readMembers fuel (c :: next)).part.2),(readMembers fuel (c :: next)).rest⟩ := by
  obtain ⟨cs',hcolon,hcs'⟩ := skipSpace_colon pretty (chars pretty level v ++ tail)
  simp only [memberChars,quotedText,List.cons_append,List.append_assoc,List.nil_append]
  rw [readMembers]
  simp only [skipText_escaped,readText_escaped,hcolon,hcs',hv,ht,hn]
  split
  · rename_i heq
    exact absurd (List.cons.inj heq).1 hc
  · simp [Except.map]

end member

theorem readMembers_chars {key : String} {v : Json} {members : List (String × Json)}
    (hr : ∀ m ∈ (key,v) :: members, Reads m.2) (pretty : Bool) (level fuel : Nat)
    (rest : List Char) (hf : 2 * ((memberChars pretty (level + 1) key v).length +
      (membersChars pretty (level + 1) members).length) < fuel) :
    readMembers fuel
        (memberChars pretty (level + 1) key v ++ membersRest pretty level members rest) =
      ⟨(memberSurfaces ((key,v) :: members),.closed),some rest⟩ := by
  induction members generalizing key v fuel with
  | nil =>
    obtain ⟨fuel,rfl⟩ : ∃ k, fuel = k + 1 := ⟨fuel - 1,by omega⟩
    have hv := hr (key,v) List.mem_cons_self pretty (level + 1) fuel _ (by
      simp only [memberChars,List.length_append] at hf ⊢
      omega) (stops_membersRest pretty level [] rest)
    refine readMembers_last key hv ?_
    rw [membersRest,membersChars,List.nil_append,skipSpace_lineBreak,skipSpace_cons rfl]
  | cons next members ih =>
    obtain ⟨fuel,rfl⟩ : ∃ k, fuel = k + 1 := ⟨fuel - 1,by omega⟩
    obtain ⟨key',v'⟩ := next
    have hv := hr (key,v) List.mem_cons_self pretty (level + 1) fuel _ (by
      simp only [memberChars,List.length_append] at hf ⊢
      omega) (stops_membersRest pretty level ((key',v') :: members) rest)
    have hnext := ih (fun m hm => hr m (List.mem_cons_of_mem _ hm)) fuel (by
      simp only [membersChars,memberChars,List.length_cons,List.length_append] at hf ⊢
      omega)
    have hcomma : skipSpace (membersRest pretty level ((key',v') :: members) rest) = ',' ::
        (lineBreak pretty (level + 1) ++
          (memberChars pretty (level + 1) key' v' ++ membersRest pretty level members rest)) := by
      rw [membersRest,membersChars,List.cons_append,skipSpace_cons rfl]
      simp only [membersRest,memberChars,List.append_assoc]
    have hquote : skipSpace (lineBreak pretty (level + 1) ++
        (memberChars pretty (level + 1) key' v' ++ membersRest pretty level members rest)) =
          memberChars pretty (level + 1) key' v' ++ membersRest pretty level members rest := by
      rw [skipSpace_lineBreak]
      exact skipSpace_cons rfl _
    rw [readMembers_more key hv hcomma hquote (by decide)]
    exact hnext ▸ rfl

theorem reads_array {items : List Json}
    (hw : ∀ v ∈ items, Numbered Number.Legible v) (hr : ∀ v ∈ items, Reads v) :
    Reads (.array items) := by
  intro pretty level fuel rest hf _
  obtain ⟨fuel,rfl⟩ := fuel_eq_succ (.array hw) hf
  cases items with
  | nil => rfl
  | cons item items =>
    obtain ⟨c,cs,hc,hspace,hclose⟩ := chars_head (hw item (by simp)) pretty (level + 1)
    have hitems := readItems_chars hw hr pretty level fuel rest (by
      simp only [chars,List.length_cons,List.length_append] at hf
      omega)
    have htext : chars pretty level (.array (item :: items)) ++ rest = '[' ::
        (lineBreak pretty (level + 1) ++
          (chars pretty (level + 1) item ++ itemsRest pretty level items rest)) := by
      simp only [chars,itemsRest,List.cons_append,List.append_assoc,List.nil_append]
    rw [htext,readValue,skipSpace_cons rfl]
    simp only [skipSpace_lineBreak]
    rw [hc,List.cons_append] at hitems ⊢
    rw [skipSpace_cons hspace]
    split
    · rename_i heq
      exact absurd (List.cons.inj heq).1 hclose
    · rename_i heq
      cases heq
    · rw [hitems]
      rfl

theorem reads_object {members : List (String × Json)}
    (hw : Numbered Number.Legible (.object members)) (hr : ∀ m ∈ members, Reads m.2) :
    Reads (.object members) := by
  intro pretty level fuel rest hf _
  obtain ⟨fuel,rfl⟩ := fuel_eq_succ hw hf
  cases members with
  | nil => rfl
  | cons m members =>
    obtain ⟨key,v⟩ := m
    have hmembers := readMembers_chars hr pretty level fuel rest (by
      simp only [chars,memberChars,List.length_cons,List.length_append] at hf ⊢
      omega)
    have htext : chars pretty level (.object ((key,v) :: members)) ++ rest = '\x7b' ::
        (lineBreak pretty (level + 1) ++
          (memberChars pretty (level + 1) key v ++ membersRest pretty level members rest)) := by
      simp only [chars,memberChars,membersRest,List.cons_append,List.append_assoc,List.nil_append]
    have hquote : skipSpace (lineBreak pretty (level + 1) ++
        (memberChars pretty (level + 1) key v ++ membersRest pretty level members rest)) =
          memberChars pretty (level + 1) key v ++ membersRest pretty level members rest := by
      rw [skipSpace_lineBreak]
      exact skipSpace_cons rfl _
    rw [htext,readValue,skipSpace_cons rfl]
    simp only [hquote]
    split
    · rename_i heq
      exact absurd (List.cons.inj heq).1 (by decide)
    · rw [hmembers]
      rfl

theorem reads_of_numbered {v : Json} (h : Numbered Number.Legible v) :
    Reads v := by
  induction h with
  | null =>
    intro pretty level fuel rest hf _
    obtain ⟨fuel,rfl⟩ := fuel_eq_succ (@Numbered.null _) hf
    rfl
  | bool b =>
    intro pretty level fuel rest hf _
    obtain ⟨fuel,rfl⟩ := fuel_eq_succ (@Numbered.bool _ b) hf
    cases b <;> rfl
  | number legible =>
    intro pretty level fuel rest hf hr
    obtain ⟨fuel,rfl⟩ := fuel_eq_succ (Numbered.number legible) hf
    exact readValue_number legible fuel hr
  | text s =>
    intro pretty level fuel rest hf _
    obtain ⟨fuel,rfl⟩ := fuel_eq_succ (@Numbered.text _ s) hf
    exact readValue_quotedText fuel s rest
  | array each ih => exact reads_array each ih
  | object each ih => exact reads_object (.object each) ih

/-- The number that the reader makes of the text of a number. -/
def Number.reread (n : Number) : Number :=
  n.reading.toOption.getD n

mutual

/-- A value with its numbers as the reader takes them. -/
def reread : Json → Json
  | .null => .null
  | .bool b => .bool b
  | .number n => .number n.reread
  | .text s => .text s
  | .array items => .array (rereadItems items)
  | .object members => .object (rereadMembers members)

def rereadItems : List Json → List Json
  | [] => []
  | v :: vs => reread v :: rereadItems vs

def rereadMembers : List (String × Json) → List (String × Json)
  | [] => []
  | (key,v) :: members => (key,reread v) :: rereadMembers members

end

theorem insertMember_last {α : Type} {key : String} (v : α) {done : List (String × α)}
    (h : ∀ m ∈ done, m.1 < key) : insertMember key v done = done ++ [(key,v)] := by
  induction done with
  | nil => rfl
  | cons m done ih =>
    obtain ⟨k,w⟩ := m
    have hk : k < key := h (k,w) List.mem_cons_self
    have hne : key ≠ k := by
      intro he
      exact String.lt_irrefl k (he ▸ hk)
    rw [insertMember,if_neg (String.lt_asymm hk),if_neg hne,
      ih fun m hm => h m (List.mem_cons_of_mem _ hm)]
    rfl

section each

variable {α β : Type} {d : Decoder α} {depth : Nat} {write : β → Json} {read : β → α}

theorem eachItem_surfaces {bs : List β} (h : ∀ b ∈ bs, d depth (surface (write b)) = .ok (read b)) :
    Decoder.eachItem d depth (surfaces (bs.map write)) = .ok (bs.map read) := by
  induction bs with
  | nil => rfl
  | cons b bs ih =>
    simp only [List.map_cons,surfaces,Decoder.eachItem,h b List.mem_cons_self,
      ih fun b hb => h b (List.mem_cons_of_mem _ hb)]
    rfl

/-- Ascending members are put one behind the other. -/
theorem eachMember_surfaces {entries : List (String × β)}
    (hv : ∀ e ∈ entries, d depth (surface (write e.2)) = .ok (read e.2))
    (hs : entries.Pairwise fun e e' => e.1 < e'.1) (done : List (String × α))
    (hd : ∀ e ∈ done, ∀ e' ∈ entries, e.1 < e'.1) :
    Decoder.eachMember d depth (memberSurfaces (entries.map fun e => (e.1,write e.2))) done =
      .ok (done ++ entries.map fun e => (e.1,read e.2)) := by
  induction entries generalizing done with
  | nil => rw [List.map_nil,memberSurfaces,Decoder.eachMember,List.map_nil,List.append_nil]
  | cons e entries ih =>
    obtain ⟨key,b⟩ := e
    obtain ⟨hfirst,hs⟩ := List.pairwise_cons.mp hs
    have hput := insertMember_last (read b) fun e he => hd e he (key,b) List.mem_cons_self
    have hlater : ∀ e ∈ done ++ [(key,read b)], ∀ e' ∈ entries, e.1 < e'.1 := by
      intro e he e' he'
      rcases List.mem_append.mp he with he | he
      · exact hd e he e' (List.mem_cons_of_mem _ he')
      · rw [List.mem_singleton.mp he]
        exact hfirst e' he'
    have hrest := ih (fun e he => hv e (List.mem_cons_of_mem _ he)) hs _ hlater
    simp only [List.map_cons,memberSurfaces,Decoder.eachMember,bind,Except.bind,
      hv (key,b) List.mem_cons_self,hput,hrest,List.append_assoc,List.singleton_append]

end each

theorem values_eq_eachItem (depth : Nat) (ss : List Surface) :
    Decoder.values depth ss = Decoder.eachItem Decoder.value depth ss := by
  induction ss with
  | nil => rfl
  | cons s ss ih => rw [Decoder.values,Decoder.eachItem,ih]

theorem memberValues_eq_eachMember (depth : Nat) (ss : List (Except Fault String × Surface))
    (done : List (String × Json)) :
    Decoder.memberValues depth ss done = Decoder.eachMember Decoder.value depth ss done := by
  induction ss generalizing done with
  | nil => rfl
  | cons s ss ih => simp only [Decoder.memberValues,Decoder.eachMember,ih]

theorem rereadItems_eq_map (items : List Json) : rereadItems items = items.map reread := by
  induction items with
  | nil => rfl
  | cons v items ih => rw [rereadItems,List.map_cons,ih]

theorem rereadMembers_eq_map (members : List (String × Json)) :
    rereadMembers members = members.map fun m => (m.1,m.2.reread) := by
  induction members with
  | nil => rfl
  | cons m members ih => rw [rereadMembers,List.map_cons,ih]

theorem value_surface {depth : Nat} {v : Json} (h : WellFormed Number.Legible depth v) :
    Decoder.value depth (surface v) = .ok v.reread := by
  induction h with
  | null => rfl
  | bool b => rfl
  | @number _ n legible =>
    obtain ⟨n',hn⟩ := legible
    simp only [surface,Decoder.value,reread,Number.reread,hn]
    rfl
  | text s => rfl
  | array each ih =>
    have hitems := eachItem_surfaces ih
    rw [List.map_id'] at hitems
    simp only [surface,Decoder.value,values_eq_eachItem,hitems,Stop.close,reread,rereadItems_eq_map]
    rfl
  | @object depth _ sorted each ih =>
    have hmembers := @eachMember_surfaces _ _ Decoder.value depth id reread _ ih sorted [] (by simp)
    simp only [id,List.map_id'] at hmembers
    simp only [surface,Decoder.value,memberValues_eq_eachMember,hmembers,Stop.close,reread,
      rereadMembers_eq_map]
    rfl

/-- The text of a value, compact or pretty. -/
def serialized (pretty : Bool) (v : Json) : String :=
  if pretty then v.pretty else v.compact

theorem toList_serialized (pretty : Bool) (v : Json) :
    (serialized pretty v).toList = chars pretty 0 v := by
  cases pretty <;> exact String.toList_ofList

theorem document_serialized {v : Json} (h : Numbered Number.Legible v) (pretty : Bool) :
    Document.ofText (serialized pretty v) = ⟨surface v,false⟩ := by
  have hread := reads_of_numbered h pretty 0 (2 * (chars pretty 0 v).length + 2) []
    (by omega) stops_nil
  rw [List.append_nil] at hread
  simp only [Document.ofText,Document.ofChars,toList_serialized,hread]
  rfl

/-- What was written is read back. -/
theorem parse_serialized {v : Json} (h : WellFormed Number.Legible maxNesting v) (pretty : Bool) :
    parse (serialized pretty v) = .ok v.reread := by
  simp only [parse,decode,document_serialized h.numbered,value_surface h]
  rfl

theorem Number.Exact.legible {n : Number} (h : n.Exact) : n.Legible :=
  ⟨n,h⟩

theorem WellFormed.legible {depth : Nat} {v : Json} (h : WellFormed Number.Exact depth v) :
    WellFormed Number.Legible depth v :=
  h.imp fun _ => Number.Exact.legible

/-- A value whose numbers are read back as they were written is itself read back. -/
theorem reread_eq_self {depth : Nat} {v : Json} (h : WellFormed Number.Exact depth v) :
    v.reread = v := by
  induction h with
  | null => rfl
  | bool b => rfl
  | number exact => rw [reread,Number.reread,exact]; rfl
  | text s => rfl
  | array _ ih => rw [reread,rereadItems_eq_map,List.map_congr_left ih,List.map_id']
  | @object _ members _ _ ih =>
    have hsame : ∀ m ∈ members, (m.1,m.2.reread) = m := fun m hm => by rw [ih m hm]
    rw [reread,rereadMembers_eq_map,List.map_congr_left hsame,List.map_id']

end EndpointAudit.Json
