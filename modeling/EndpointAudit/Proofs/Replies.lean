import EndpointAudit.Completion
import EndpointAudit.Proofs.Readback
import EndpointAudit.Proofs.Trimming

namespace EndpointAudit

namespace Text

section search

variable {α : Type} [DecidableEq α]

/-- A start that is not there does not come about across a separator. -/
theorem dropPrefix?_separator {pre cs : List α} {c : α} (h : dropPrefix? pre cs = none)
    (hc : c ∉ pre) (rest : List α) : dropPrefix? pre (cs ++ c :: rest) = none := by
  induction pre generalizing cs with
  | nil => cases h
  | cons p pre ih =>
    simp only [List.mem_cons,not_or] at hc
    cases cs with
    | nil => rw [List.nil_append,dropPrefix?,if_neg (Ne.symm hc.1)]
    | cons d cs =>
      rw [dropPrefix?] at h
      rw [List.cons_append,dropPrefix?]
      split
      · rename_i hd
        rw [if_pos hd] at h
        exact ih h hc.2
      · rfl

end search

theorem splitFirst_start {pattern : List Char} (hp : pattern ≠ []) (rest : List Char) :
    splitFirst pattern (pattern ++ rest) = some ([],rest) := by
  obtain ⟨c,pattern,rfl⟩ := List.exists_cons_of_ne_nil hp
  rw [List.cons_append,splitFirst,← List.cons_append,dropPrefix?_append]

/-- The first occurrence stands behind a text without one and a separator. -/
theorem splitFirst_separator {pattern cs : List Char} {c : Char} (hp : pattern ≠ [])
    (h : splitFirst pattern cs = none) (hc : c ∉ pattern) (rest : List Char) :
    splitFirst pattern (cs ++ c :: (pattern ++ rest)) = some (cs ++ [c],rest) := by
  induction cs with
  | nil =>
    have hnone : dropPrefix? pattern (c :: (pattern ++ rest)) = none := by
      obtain ⟨p,pattern,rfl⟩ := List.exists_cons_of_ne_nil hp
      simp only [List.mem_cons,not_or] at hc
      rw [dropPrefix?,if_neg (Ne.symm hc.1)]
    rw [List.nil_append,splitFirst,hnone,splitFirst_start hp]
    rfl
  | cons d cs ih =>
    rw [splitFirst] at h
    split at h
    · cases h
    · rename_i hd
      have hnone := dropPrefix?_separator hd hc (pattern ++ rest)
      rw [List.cons_append] at hnone
      rw [List.cons_append,splitFirst,hnone,ih (Option.map_eq_none_iff.mp h)]
      rfl

end Text

namespace Completion

/-- A reply that holds a text as it was asked for. The text by itself makes no fenced block, or no fence
at all stands in it where it is between fences. -/
inductive Holds (t : String) : String → Prop
  | bare (unfenced : fencedBlock? t.toList = none) : Holds t t
  | fenced (unfenced : Text.splitFirst fence t.toList = none) :
    Holds t ("\x60\x60\x60json\n" ++ t ++ "\n\x60\x60\x60")

theorem fencedBlock?_fenced {t : String} (h : Text.splitFirst fence t.toList = none) :
    fencedBlock? ("\x60\x60\x60json\n" ++ t ++ "\n\x60\x60\x60").toList = some (t.toList ++ ['\n']) := by
  have htext : ("\x60\x60\x60json\n" ++ t ++ "\n\x60\x60\x60").toList =
      fence ++ ('j' :: 's' :: 'o' :: 'n' :: '\n' :: (t.toList ++ '\n' :: (fence ++ []))) := by
    simp [fence]
  have hopening : afterOpening ('j' :: 's' :: 'o' :: 'n' :: '\n' ::
      (t.toList ++ '\n' :: (fence ++ []))) = t.toList ++ '\n' :: (fence ++ []) := rfl
  rw [fencedBlock?,htext,Text.splitFirst_start (by decide)]
  simp only [hopening]
  rw [Text.splitFirst_separator (by decide) h (by decide)]
  rfl

/-- The text of an object stands between its braces. -/
theorem chars_object (pretty : Bool) (members : List (String × Json)) :
    ∃ middle, Json.chars pretty 0 (.object members) = '\x7b' :: (middle ++ ['\x7d']) := by
  cases members with
  | nil => exact ⟨[],rfl⟩
  | cons m members => exact ⟨_,rfl⟩

variable {members : List (String × Json)} {pretty : Bool}

theorem trimChars_object {blanks : List Char} (hb : ∀ c ∈ blanks, Text.isBlank c) :
    Text.trimChars ((Json.serialized pretty (.object members)).toList ++ blanks) =
      (Json.serialized pretty (.object members)).toList := by
  obtain ⟨middle,hm⟩ := chars_object pretty members
  rw [Json.toList_serialized,hm,List.cons_append,List.append_assoc,List.singleton_append]
  exact Text.trimChars_eq middle rfl rfl hb

/-- What is taken out of a reply is the text that it holds. -/
theorem payload_of_holds {reply : String}
    (h : Holds (Json.serialized pretty (.object members)) reply) :
    payload reply = Json.serialized pretty (.object members) := by
  have hchars : payloadChars reply.toList = (Json.serialized pretty (.object members)).toList := by
    unfold payloadChars
    cases h with
    | bare unfenced =>
      rw [unfenced,Option.getD_none,← List.append_nil (String.toList _),
        trimChars_object (by simp),List.append_nil]
    | fenced unfenced =>
      rw [fencedBlock?_fenced unfenced,Option.getD_some,
        trimChars_object (List.forall_mem_singleton.mpr rfl)]
  rw [payload,hchars,String.ofList_toList]

theorem lookup_rereadMembers (key : String) :
    (Json.rereadMembers members).lookup key = (members.lookup key).map Json.reread := by
  induction members with
  | nil => rfl
  | cons m members ih =>
    obtain ⟨k,v⟩ := m
    rw [Json.rereadMembers,List.lookup_cons,List.lookup_cons,ih]
    split <;> rfl

theorem reread_eq_text_iff {v : Json} {s : String} : v.reread = .text s ↔ v = .text s := by
  cases v <;> simp [Json.reread]

theorem asText?_eq_some_iff {v : Json} {s : String} : v.asText? = some s ↔ v = .text s := by
  cases v <;> simp [Json.asText?]

theorem verdictOf_eq (members : List (String × Json)) :
    (verdictOf members = .success ↔ members.lookup "status" = some (.text "success")) ∧
      (verdictOf members = .fail ↔ members.lookup "status" ≠ some (.text "success")) := by
  have hstatus : (members.lookup "status").bind Json.asText? = some "success" ↔
      members.lookup "status" = some (.text "success") := by
    rw [Option.bind_eq_some_iff]
    constructor
    · intro ⟨v,hv,hs⟩
      rw [hv,asText?_eq_some_iff.mp hs]
    · intro hv
      exact ⟨_,hv,rfl⟩
  unfold verdictOf
  split
  · rename_i hs
    simp [hstatus.mp hs]
  · rename_i hs
    simp [mt hstatus.mpr hs]

theorem reread_status_iff {s : String} :
    (Json.rereadMembers members).lookup "status" = some (.text s) ↔
      members.lookup "status" = some (.text s) := by
  rw [lookup_rereadMembers,Option.map_eq_some_iff]
  constructor
  · intro ⟨v,hv,hs⟩
    rw [hv,reread_eq_text_iff.mp hs]
  · intro hv
    exact ⟨_,hv,rfl⟩

/-- A reply that holds the text of an object, compact or pretty, is read as that object, with its numbers
as the reader takes them, and it is a success just if its status says so; it is never incomplete. -/
theorem verdict_of_holds {reply : String}
    (hw : Json.WellFormed Json.Number.Legible Json.maxNesting (.object members))
    (hr : Holds (Json.serialized pretty (.object members)) reply) :
    object? reply = some (Json.rereadMembers members) ∧
    (Json.WellFormed Json.Number.Exact Json.maxNesting (.object members) →
      object? reply = some members) ∧
    (verdict reply = .success ↔ members.lookup "status" = some (.text "success")) ∧
    (verdict reply = .fail ↔ members.lookup "status" ≠ some (.text "success")) ∧
    verdict reply ≠ .incomplete := by
  have hobject : object? reply = some (Json.rereadMembers members) := by
    rw [object?,payload_of_holds hr,Json.parse_serialized hw,Json.reread]
  have hverdict : verdict reply = verdictOf (Json.rereadMembers members) := by
    rw [verdict,hobject]
  obtain ⟨hsuccess,hfail⟩ := verdictOf_eq (Json.rereadMembers members)
  rw [reread_status_iff] at hsuccess
  rw [Ne,reread_status_iff] at hfail
  rw [hverdict]
  refine ⟨hobject,?_,hsuccess,hfail,?_⟩
  · intro he
    have hsame : Json.rereadMembers members = members := by
      simpa [Json.reread] using Json.reread_eq_self he
    rw [hobject,hsame]
  · unfold verdictOf
    split <;> decide

/-- An object with a list of one object in it. -/
def quietReply : List (String × Json) :=
  [("findings",.array [.object [("code",.text "a \"b\"\n"),("line",.number (.nat 7))]]),
    ("status",.text "success")]

theorem quietReply_wellFormed :
    Json.WellFormed Json.Number.Exact Json.maxNesting (.object quietReply) := by
  refine .object (by decide) ?_
  simp only [quietReply,List.forall_mem_cons]
  refine ⟨.array (List.forall_mem_singleton.mpr (.object (by decide) ?_)),.text _,by simp⟩
  simp only [List.forall_mem_cons]
  exact ⟨.text _,.number (Json.exact_nat (by decide)),by simp⟩

theorem verdict_quietReply :
    Text.splitFirst fence (Json.serialized true (.object quietReply)).toList = none ∧
    verdict ("\x60\x60\x60json\n" ++ Json.serialized true (.object quietReply) ++
      "\n\x60\x60\x60") = .success := by
  have hf : Text.splitFirst fence (Json.serialized true (.object quietReply)).toList = none := by
    decide +kernel
  have h := verdict_of_holds quietReply_wellFormed.legible (.fenced hf)
  exact ⟨hf,h.2.2.1.mpr rfl⟩

/-- An object in which a text shows a block of its own. -/
def blockReply : List (String × Json) :=
  [("status",.text "success"),("x",.text "\x60\x60\x60inner\x60\x60\x60")]

theorem blockReply_wellFormed :
    Json.WellFormed Json.Number.Exact Json.maxNesting (.object blockReply) := by
  refine .object (by decide) ?_
  simp only [blockReply,List.forall_mem_cons]
  exact ⟨.text _,.text _,by simp⟩

/-- A block in a text is taken for the reply, so a success is lost, bare or between fences. -/
theorem verdict_blockReply :
    Json.parse (Json.serialized false (.object blockReply)) = .ok (.object blockReply) ∧
    object? (Json.serialized false (.object blockReply)) = none ∧
    verdict (Json.serialized false (.object blockReply)) = .incomplete ∧
    verdict ("\x60\x60\x60json\n" ++ Json.serialized false (.object blockReply) ++
      "\n\x60\x60\x60") = .incomplete := by
  refine ⟨?_,?_,?_,?_⟩
  · rw [Json.parse_serialized blockReply_wellFormed.legible,Json.reread_eq_self blockReply_wellFormed]
  · exact Option.isNone_iff_eq_none.mp (by decide +kernel)
  · decide +kernel
  · decide +kernel

end Completion

end EndpointAudit
