import EndpointAudit.Proofs.FirstPlaces
import EndpointAudit.Prompt.Params
import Mathlib.Data.List.Induction
import Mathlib.Data.List.Nodup

namespace EndpointAudit.Prompt

namespace Params

variable {k key s value : String} {i : Nat} {pairs : List (String × String)}

/-- Setting a name keeps its place, and a new one stands last. -/
theorem keys_setEntry (key value : String) (entries : List (String × String)) :
    (setEntry key value entries).map Prod.fst =
      if key ∈ entries.map Prod.fst then entries.map Prod.fst else entries.map Prod.fst ++ [key] := by
  induction entries with
  | nil => rfl
  | cons e entries ih =>
    obtain ⟨k,v⟩ := e
    by_cases hk : k = key
    · simp [setEntry,hk]
    · by_cases hm : key ∈ entries.map Prod.fst
      · rw [if_pos hm] at ih
        rw [List.map_cons,if_pos (List.mem_cons_of_mem k hm),setEntry,if_neg hk,List.map_cons,ih]
      · rw [if_neg hm] at ih
        have hn : key ∉ k :: entries.map Prod.fst :=
          List.not_mem_cons_of_ne_of_not_mem (Ne.symm hk) hm
        rw [List.map_cons,if_neg hn,setEntry,if_neg hk,List.map_cons,ih,List.cons_append]

/-- Another name stays at its place, with its text. -/
theorem getElem?_setEntry (h : k ≠ key) (entries : List (String × String)) (i : Nat) :
    (setEntry key value entries)[i]? = some (k,s) ↔ entries[i]? = some (k,s) := by
  induction entries generalizing i with
  | nil => cases i <;> simp [setEntry,h.symm]
  | cons e entries ih =>
    obtain ⟨k',v⟩ := e
    by_cases hk : k' = key
    · cases i <;> simp [setEntry,hk,h.symm]
    · cases i with
      | zero => simp [setEntry,hk]
      | succ i => simpa [setEntry,hk] using ih i

theorem get?_set (p : Params) (key value k : String) :
    (p.set key value).get? k = if k = key then some value else p.get? k := by
  obtain ⟨entries⟩ := p
  simp only [get?,set]
  induction entries with
  | nil => by_cases hk : k = key <;> simp [setEntry,hk]
  | cons e entries ih =>
    obtain ⟨k',v⟩ := e
    by_cases hk : k = k'
    · subst hk
      by_cases hkey : k = key <;> simp [setEntry,hkey]
    · have hpass : (k == k') = false := beq_false_of_ne hk
      by_cases hkey : k' = key
      · rw [setEntry,if_pos hkey,List.lookup_cons,List.lookup_cons,hpass,if_neg (hkey ▸ hk)]
      · rw [setEntry,if_neg hkey,List.lookup_cons,List.lookup_cons,hpass,ih]

theorem ofList_concat (pairs : List (String × String)) (e : String × String) :
    ofList (pairs ++ [e]) = (ofList pairs).set e.1 e.2 :=
  List.foldl_append

theorem keys_ofList (pairs : List (String × String)) :
    (ofList pairs).entries.map Prod.fst = (pairs.map Prod.fst).eraseDups := by
  induction pairs using List.reverseRecOn with
  | nil => rfl
  | append_singleton pairs e ih =>
    rw [ofList_concat,set,keys_setEntry,ih,List.map_append,List.map_singleton,eraseDups_concat]
    simp only [List.mem_eraseDups]

theorem getElem?_keys_eq_some_iff :
    (pairs.map Prod.fst)[i]? = some key ↔ ∃ s, pairs[i]? = some (key,s) := by
  rw [List.getElem?_map,Option.map_eq_some_iff]
  constructor
  · rintro ⟨⟨_,s⟩,hs,rfl⟩
    exact ⟨s,hs⟩
  · intro ⟨s,hs⟩
    exact ⟨(key,s),hs,rfl⟩

/-- Names stand in the order of the places at which they were first set. -/
theorem keys_ofList_ordered (pairs : List (String × String)) :
    ((ofList pairs).entries.map Prod.fst).Pairwise fun k k' =>
      ∃ (i : Nat) (s : String), pairs[i]? = some (k,s) ∧
        ∀ (j : Nat) (t : String), pairs[j]? = some (k',t) → i < j := by
  rw [keys_ofList]
  refine (eraseDups_firstPlaces _).imp ?_
  intro k k' ⟨i,hi,hleast⟩
  obtain ⟨s,hs⟩ := getElem?_keys_eq_some_iff.mp hi
  exact ⟨i,s,hs,fun j t ht => hleast j (getElem?_keys_eq_some_iff.mpr ⟨t,ht⟩)⟩

/-- However parameters are set, no name stands twice. -/
theorem keys_ofList_nodup (pairs : List (String × String)) :
    ((ofList pairs).entries.map Prod.fst).Nodup := by
  refine (keys_ofList_ordered pairs).imp ?_
  rintro k _ ⟨i,s,hs,hleast⟩ rfl
  exact Nat.lt_irrefl i (hleast i s hs)

theorem mem_keys_ofList : key ∈ (ofList pairs).entries.map Prod.fst ↔
    ∃ (i : Nat) (s : String), pairs[i]? = some (key,s) := by
  rw [keys_ofList,List.mem_eraseDups,List.mem_iff_getElem?]
  exact exists_congr fun _ => getElem?_keys_eq_some_iff

theorem getElem?_concat_of_ne {e e' : String × String} (h : e ≠ e') :
    (pairs ++ [e])[i]? = some e' ↔ pairs[i]? = some e' := by
  by_cases hi : i < pairs.length
  · rw [List.getElem?_append_left hi]
  · have hle := Nat.le_of_not_lt hi
    rw [List.getElem?_append_right hle,List.getElem?_eq_none hle,List.getElem?_singleton]
    split <;> simp [h]

/-- A name has the text that was set last under it. -/
theorem get?_ofList_eq_some_iff : (ofList pairs).get? key = some s ↔
    ∃ i : Nat, pairs[i]? = some (key,s) ∧
      ∀ (j : Nat) (t : String), pairs[j]? = some (key,t) → j ≤ i := by
  -- From the end, since a pair there decides alone if it has the name, and not at all if it does not.
  induction pairs using List.reverseRecOn with
  | nil => simp [ofList,get?]
  | append_singleton pairs e ih =>
    obtain ⟨key',value⟩ := e
    have hlast : (pairs ++ [(key',value)])[pairs.length]? = some (key',value) :=
      List.getElem?_concat_length
    have hbound {j : Nat} {e : String × String} (hj : (pairs ++ [(key',value)])[j]? = some e) :
        j ≤ pairs.length := by
      have hlt := (List.getElem?_eq_some_iff.mp hj).1
      rw [List.length_append,List.length_singleton] at hlt
      exact Nat.le_of_lt_succ hlt
    rw [ofList_concat,get?_set]
    by_cases hk : key = key'
    · subst hk
      rw [if_pos rfl,Option.some.injEq]
      constructor
      · rintro rfl
        exact ⟨pairs.length,hlast,fun j t hj => hbound hj⟩
      · intro ⟨i,hi,hgreatest⟩
        have he : i = pairs.length := Nat.le_antisymm (hbound hi) (hgreatest _ _ hlast)
        rw [he,hlast] at hi
        exact congrArg Prod.snd (Option.some.inj hi)
    · have hother (t : String) : (key',value) ≠ (key,t) :=
        fun he => hk (congrArg Prod.fst he).symm
      rw [if_neg hk,ih]
      simp only [getElem?_concat_of_ne (hother _)]

theorem get?_eq_none_iff {p : Params} : p.get? key = none ↔ key ∉ p.entries.map Prod.fst := by
  rw [get?,List.lookup_eq_none_iff,List.mem_map]
  constructor
  · rintro h ⟨e,he,rfl⟩
    simpa using h e he
  · intro h e he
    exact bne_iff_ne.mpr fun hk => h ⟨e,he,hk.symm⟩

end Params

/-- What is set at once: a name, to a text or to a JSON value. -/
inductive Assignment
  | text (key value : String)
  | json (key : String) (value : Json)

namespace Assignment

/-- The name that is set, and the text that it gets: a text as it is, also one from a JSON value, and any
other JSON value without blanks. -/
inductive Gives : Assignment → String → String → Prop
  | text (key value : String) : Gives (.text key value) key value
  | jsonText (key value : String) : Gives (.json key (.text value)) key value
  | json (key : String) {value : Json} (h : value.asText? = none) :
      Gives (.json key value) key value.compact

def pair : Assignment → String × String
  | .text key value => (key,value)
  | .json key value => (key,Params.textOf value)

theorem gives_iff {a : Assignment} {key s : String} : a.Gives key s ↔ a.pair = (key,s) := by
  constructor
  · intro h
    cases h with
    | text | jsonText => rfl
    | @json _ value h =>
      cases value with
      | text s => cases h
      | null | bool | number | array | object => rfl
  · intro h
    cases a with
    | text key value =>
      obtain ⟨rfl,rfl⟩ := Prod.mk.inj h
      exact .text key value
    | json key value =>
      obtain ⟨rfl,rfl⟩ := Prod.mk.inj h
      cases value with
      | text s => exact .jsonText key s
      | null | bool | number | array | object => exact .json key rfl

end Assignment

namespace Params

def assign (p : Params) : Assignment → Params
  | .text key value => p.set key value
  | .json key value => p.setJson key value

/-- Parameters that are set one after the other, beginning with none. -/
def ofAssignments (as : List Assignment) : Params :=
  as.foldl assign {}

/-- An assignment, by its place, gives a name a text. -/
def Given (as : List Assignment) (i : Nat) (key s : String) : Prop :=
  ∃ a, as[i]? = some a ∧ a.Gives key s

variable {as : List Assignment} {i : Nat} {key s : String}

theorem given_iff : Given as i key s ↔ (as.map Assignment.pair)[i]? = some (key,s) := by
  simp only [Given,Assignment.gives_iff,List.getElem?_map,Option.map_eq_some_iff]

theorem assign_eq (p : Params) (a : Assignment) : p.assign a = p.set a.pair.1 a.pair.2 := by
  cases a <;> rfl

theorem ofAssignments_eq (as : List Assignment) :
    ofAssignments as = ofList (as.map Assignment.pair) := by
  have hstep : assign = fun p a => p.set a.pair.1 a.pair.2 :=
    funext fun p => funext fun a => assign_eq p a
  unfold ofAssignments ofList
  rw [List.foldl_map,hstep]

/-- Whatever is set, to texts and to JSON values and as often as may be: each name stands once, in the order
of the places at which the names were first set. A name has the text that it was given last, and none if it
was never set. One more assignment leaves every other name at its place and with its text. Parameters that
are collected from pairs are those that are set to the texts one by one. -/
theorem ofAssignments_exact (as : List Assignment) :
    ((ofAssignments as).entries.map Prod.fst).Nodup ∧
    (∀ key, key ∈ (ofAssignments as).entries.map Prod.fst ↔ ∃ i s, Given as i key s) ∧
    ((ofAssignments as).entries.map Prod.fst).Pairwise (fun key key' =>
      ∃ i s, Given as i key s ∧ ∀ j t, Given as j key' t → i < j) ∧
    (∀ key s, (ofAssignments as).get? key = some s ↔
      ∃ i, Given as i key s ∧ ∀ j t, Given as j key t → j ≤ i) ∧
    (∀ key, (ofAssignments as).get? key = none ↔ ∀ i s, ¬ Given as i key s) ∧
    (∀ (a : Assignment) key s, a.Gives key s → ∀ key', key' ≠ key →
      ((ofAssignments as).assign a).get? key' = (ofAssignments as).get? key' ∧
      ∀ (i : Nat) t, ((ofAssignments as).assign a).entries[i]? = some (key',t) ↔
        (ofAssignments as).entries[i]? = some (key',t)) ∧
    ∀ pairs, ofList pairs = ofAssignments (pairs.map fun e => .text e.1 e.2) := by
  have hmem (key : String) :
      key ∈ (ofAssignments as).entries.map Prod.fst ↔ ∃ i s, Given as i key s := by
    simp only [ofAssignments_eq,given_iff,mem_keys_ofList]
  refine ⟨?_,hmem,?_,?_,?_,?_,?_⟩
  · rw [ofAssignments_eq]
    exact keys_ofList_nodup _
  · simp only [ofAssignments_eq,given_iff]
    exact keys_ofList_ordered _
  · intro key s
    simp only [ofAssignments_eq,given_iff,get?_ofList_eq_some_iff]
  · intro key
    simp only [get?_eq_none_iff,hmem,not_exists]
  · intro a key s ha key' hne
    rw [assign_eq,Assignment.gives_iff.mp ha]
    exact ⟨(get?_set _ _ _ _).trans (if_neg hne),fun i t => getElem?_setEntry hne _ i⟩
  · intro pairs
    have hpairs : Assignment.pair ∘ (fun e : String × String => Assignment.text e.1 e.2) = id := rfl
    rw [ofAssignments_eq,List.map_map,hpairs,List.map_id]

/-- A name that is set again, after another one and to a value of the other kind. -/
def relabelling : List Assignment :=
  [.text "K" "old",.json "S" (.text "plain"),.json "K" (.object [("a",.ofNat 1)]),.text "E" ""]

theorem ofAssignments_exact_relabelling :
    let p := ofAssignments relabelling
    p.entries = [("K","\x7b\"a\":1\x7d"),("S","plain"),("E","")] ∧
    (Assignment.json "S" .null).Gives "S" "null" ∧ "K" ≠ "S" ∧ "E" ≠ "S" ∧
    (p.assign (.json "S" .null)).get? "K" = some "\x7b\"a\":1\x7d" ∧
    (p.assign (.json "S" .null)).entries[2]? = some ("E","") := by
  intro p
  have hentries : p.entries = [("K","\x7b\"a\":1\x7d"),("S","plain"),("E","")] := by
    decide +kernel
  have hnull : (Assignment.json "S" .null).Gives "S" "null" := .json "S" rfl
  have hk : "K" ≠ "S" := by decide
  have he : "E" ≠ "S" := by decide
  obtain ⟨_,_,_,_,_,hframe,_⟩ := ofAssignments_exact relabelling
  refine ⟨hentries,hnull,hk,he,?_,?_⟩
  · rw [(hframe _ _ _ hnull "K" hk).1]
    exact congrArg (List.lookup "K") hentries
  · rw [(hframe _ _ _ hnull "E" he).2]
    exact congrArg (fun entries => entries[2]?) hentries

end Params

end EndpointAudit.Prompt
