import EndpointAudit.Proofs.FindingOrder
import EndpointAudit.Proofs.FirstPlaces
import EndpointAudit.Proofs.Tallies
import EndpointAudit.Stages.Summary

namespace EndpointAudit.Stages.SummaryInput

/-- Where a text of advice stands: in which finding, in which of the two lists of its completion, and as
which item of that list. -/
structure Place where
  finding : Nat
  list : Nat
  item : Nat

def Place.Before (p q : Place) : Prop :=
  p.finding < q.finding ∨ p.finding = q.finding ∧ (p.list < q.list ∨ p.list = q.list ∧ p.item < q.item)

theorem Place.before_irrefl (p : Place) : ¬ p.Before p := by
  unfold Before
  omega

/-- A text is recommended at a place: the completion of the finding is an object, the list is an array in
it, and the item of this array is the text. -/
def Recommends (findings : List Finding) (s : String) (p : Place) : Prop :=
  ∃ f members key items, findings[p.finding]? = some f ∧
    Json.parse (Completion.payload f.text) = .ok (.object members) ∧
    ["recommendations","suggestions"][p.list]? = some key ∧
    members.lookup key = some (.array items) ∧ items[p.item]? = some (.text s)

/-- The items of a list of advice. -/
def itemsUnder (members : List (String × Json)) (key : String) : List Json :=
  ((members.lookup key).bind Json.asArray?).getD []

/-- The advice of a completion, with the places at which it stands. -/
def placedIn (i : Nat) (members : List (String × Json)) : List (String × Place) :=
  numbered ["recommendations","suggestions"] fun key k =>
    numbered (itemsUnder members key) fun item j =>
      (item.asText?.map fun s => (s,Place.mk i k j)).toList

def placedAdvice (findings : List Finding) : List (String × Place) :=
  numbered findings fun f i => ((Completion.object? f.text).map (placedIn i)).getD []

variable {findings : List Finding} {members : List (String × Json)} {i : Nat} {s : String} {p : Place}

theorem map_fst_placedIn : (placedIn i members).map Prod.fst = Completion.recommendationsOf members := by
  refine map_numbered fun key k => ?_
  rw [List.filterMap_eq_flatMap_toList]
  refine map_numbered fun item j => ?_
  cases item.asText? <;> rfl

theorem advice_eq (findings : List Finding) :
    advice findings = ((placedAdvice findings).map Prod.fst).eraseDups := by
  refine congrArg List.eraseDups (map_numbered fun f i => ?_).symm
  cases Completion.object? f.text with
  | none => rfl
  | some members => exact map_fst_placedIn

theorem getElem?_itemsUnder {key : String} {item : Json} {j : Nat} :
    (itemsUnder members key)[j]? = some item ↔
      ∃ items, members.lookup key = some (.array items) ∧ items[j]? = some item := by
  unfold itemsUnder
  cases members.lookup key with
  | none => simp
  | some v => cases v <;> simp [Json.asArray?]

theorem mem_placedIn : (s,p) ∈ placedIn i members ↔ p.finding = i ∧ ∃ key items,
    ["recommendations","suggestions"][p.list]? = some key ∧ members.lookup key = some (.array items) ∧
      items[p.item]? = some (.text s) := by
  simp only [placedIn,mem_numbered,getElem?_itemsUnder,Option.mem_toList,Option.map_eq_some_iff,
    Completion.asText?_eq_some_iff,Prod.mk.injEq]
  constructor
  · rintro ⟨k,key,hkey,j,item,⟨items,hitems,hitem⟩,_,rfl,rfl,rfl⟩
    exact ⟨rfl,key,items,hkey,hitems,hitem⟩
  · rintro ⟨rfl,key,items,hkey,hitems,hitem⟩
    exact ⟨p.list,key,hkey,p.item,_,⟨items,hitems,hitem⟩,s,rfl,rfl,rfl⟩

theorem placedIn_ordered : (placedIn i members).Pairwise fun e e' => e.2.Before e'.2 := by
  refine numbered_pairwise (fun key k => numbered_pairwise (fun item j => ?_) ?_) ?_
  · cases item.asText? <;> simp
  · intro item item' j j' hlt e he e' he'
    simp only [Option.mem_toList,Option.map_eq_some_iff] at he he'
    obtain ⟨_,_,rfl⟩ := he
    obtain ⟨_,_,rfl⟩ := he'
    exact .inr ⟨rfl,.inr ⟨rfl,hlt⟩⟩
  · intro key key' k k' hlt e he e' he'
    simp only [mem_numbered,Option.mem_toList,Option.map_eq_some_iff] at he he'
    obtain ⟨_,_,_,_,_,rfl⟩ := he
    obtain ⟨_,_,_,_,_,rfl⟩ := he'
    exact .inr ⟨rfl,.inl hlt⟩

theorem mem_placedAdvice : (s,p) ∈ placedAdvice findings ↔ Recommends findings s p := by
  have hoption {f : Finding} {j : Nat} :
      (s,p) ∈ ((Completion.object? f.text).map (placedIn j)).getD [] ↔ ∃ members,
        Json.parse (Completion.payload f.text) = .ok (.object members) ∧ (s,p) ∈ placedIn j members := by
    simp only [← Completion.object?_eq_some_iff]
    cases Completion.object? f.text <;> simp
  simp only [placedAdvice,mem_numbered,hoption,mem_placedIn,Recommends]
  constructor
  · rintro ⟨_,f,hf,members,hmembers,rfl,key,items,hplace⟩
    exact ⟨f,members,key,items,hf,hmembers,hplace⟩
  · rintro ⟨f,members,key,items,hf,hmembers,hplace⟩
    exact ⟨_,f,hf,members,hmembers,rfl,key,items,hplace⟩

theorem placedAdvice_ordered (findings : List Finding) :
    (placedAdvice findings).Pairwise fun e e' => e.2.Before e'.2 := by
  have hplaced {f : Finding} {i : Nat} {e : String × Place}
      (he : e ∈ ((Completion.object? f.text).map (placedIn i)).getD []) :
      ∃ members, e ∈ placedIn i members := by
    cases hm : Completion.object? f.text with
    | none => simp [hm] at he
    | some members => exact ⟨members,by simpa [hm] using he⟩
  refine numbered_pairwise (fun f i => ?_) ?_
  · cases Completion.object? f.text with
    | none => exact .nil
    | some members => exact placedIn_ordered
  · intro f f' i j hlt e he e' he'
    obtain ⟨_,he⟩ := hplaced he
    obtain ⟨_,he'⟩ := hplaced he'
    refine .inl ?_
    rwa [(mem_placedIn.mp he).1,(mem_placedIn.mp he').1]

/-- Apart from a note that stands at the end exactly while endpoints are pending, the recommendations of
a report are the texts in the two lists of the completions that hold an object: each of them once, in the
order of the places at which they first stand. Whatever else a completion or a list holds neither adds to
them nor hides one. -/
theorem recommendations_exact (c : Context) : ∃ given : List String,
    (ofContext c).report.recommendations = given ++ (if c.pending = [] then [] else
      [toString c.pending.length ++ " APIs have no analysis result; re-run the analysis for them"]) ∧
    given.Nodup ∧ (∀ s, s ∈ given ↔ ∃ p, Recommends c.findings s p) ∧
    given.Pairwise fun s s' => ∃ p, Recommends c.findings s p ∧
      ∀ q, Recommends c.findings s' q → p.Before q := by
  have hordered := eraseDups_ordered (placedAdvice_ordered c.findings)
  simp only [← advice_eq,mem_placedAdvice] at hordered
  refine ⟨advice c.findings,?_,hordered.imp ?_,?_,hordered⟩
  · simp only [report,ofContext,pendingNote,List.length_eq_zero_iff]
  · rintro s _ ⟨p,hp,hleast⟩ rfl
    exact p.before_irrefl (hleast p hp)
  · intro s
    rw [advice_eq,List.mem_eraseDups,List.mem_map]
    constructor
    · rintro ⟨⟨s,p⟩,hm,rfl⟩
      exact ⟨p,mem_placedAdvice.mp hm⟩
    · rintro ⟨p,hp⟩
      exact ⟨(s,p),mem_placedAdvice.mpr hp,rfl⟩

end EndpointAudit.Stages.SummaryInput
