import EndpointAudit.Proofs.Assignments
import EndpointAudit.Proofs.Placeholders
import EndpointAudit.Proofs.SoundTrees

namespace EndpointAudit.Text

theorem splitFirst_cons_of_none {pattern cs : List Char} {c : Char}
    (h : dropPrefix? pattern (c :: cs) = none) :
    splitFirst pattern (c :: cs) =
      (splitFirst pattern cs).map fun (before,after) => (c :: before,after) := by
  rw [splitFirst,h]

/-- Where no occurrence begins in a text, nothing is replaced in it. -/
theorem replaceIn_skip {pattern text cs : List Char} (by_ : List Char)
    (h : splitFirst pattern (text ++ cs) =
      (splitFirst pattern cs).map fun (before,after) => (text ++ before,after)) (fuel : Nat) :
    replaceIn pattern by_ fuel (text ++ cs) = text ++ replaceIn pattern by_ fuel cs := by
  cases fuel with
  | zero => rfl
  | succ fuel =>
    simp only [replaceIn,h]
    cases splitFirst pattern cs with
    | none => rfl
    | some parts => simp

end EndpointAudit.Text

namespace EndpointAudit.Prompt

open Text

section Search

variable {key name text cs : List Char}

/-- No placeholder begins in a text without opening bracket. -/
theorem splitFirst_free (key cs : List Char) (h : '<' ∉ text) : splitFirst (tag key) (text ++ cs) =
    (splitFirst (tag key) cs).map fun (before,after) => (text ++ before,after) := by
  induction text with
  | nil => simp
  | cons c text ih =>
    obtain ⟨hc,htext⟩ := List.ne_and_not_mem_of_not_mem_cons h
    have hnone : dropPrefix? (tag key) (c :: (text ++ cs)) = none := by
      simp [tag,dropPrefix?,hc]
    rw [List.cons_append,splitFirst_cons_of_none hnone,ih htext]
    cases splitFirst (tag key) cs <;> rfl

theorem splitFirst_tag : splitFirst (tag key) (tag key ++ cs) = some ([],cs) := by
  have hdrop := dropPrefix?_append (tag key) cs
  simp only [tag,List.cons_append] at hdrop ⊢
  rw [splitFirst,hdrop]

theorem tag_eq_of_append {cs' : List Char} (hkey : Identifier key) (hname : Identifier name)
    (h : tag name ++ cs = tag key ++ cs') : name = key := by
  have hplace := placeholder?_tag hname cs
  rw [h,placeholder?_tag hkey] at hplace
  exact (Prod.mk.inj (Option.some.inj hplace)).1.symm

/-- No placeholder begins in one of another name. -/
theorem splitFirst_other (hkey : Identifier key) (hname : Identifier name) (hne : name ≠ key) :
    splitFirst (tag key) (tag name ++ cs) =
      (splitFirst (tag key) cs).map fun (before,after) => (tag name ++ before,after) := by
  have hnone : dropPrefix? (tag key) (tag name ++ cs) = none := by
    cases hdrop : dropPrefix? (tag key) (tag name ++ cs) with
    | none => rfl
    | some rest => exact absurd (tag_eq_of_append hkey hname (eq_append_of_dropPrefix? hdrop)) hne
  have hrest := splitFirst_free key cs (open_notMem_name hname)
  simp only [tag,List.cons_append] at hnone hrest ⊢
  rw [splitFirst_cons_of_none hnone,hrest]
  cases splitFirst _ cs <;> rfl

end Search

/-- Every opening bracket of a text opens a placeholder. -/
def Tagged (text : List Char) : Prop :=
  ∀ before after, text = before ++ '<' :: after →
    ∃ name, Identifier name ∧ tag name <+: '<' :: after

theorem placeholder?_isSome_iff {cs : List Char} :
    (placeholder? cs).isSome ↔ ∃ name, Identifier name ∧ tag name <+: cs := by
  constructor
  · intro h
    obtain ⟨⟨name,rest⟩,hplace⟩ := Option.isSome_iff_exists.mp h
    obtain ⟨hname,htext⟩ := tag_of_placeholder? hplace
    exact ⟨name,hname,rest,htext.symm⟩
  · intro ⟨name,hname,rest,htext⟩
    rw [← htext,placeholder?_tag hname]
    rfl

instance (name : List Char) : Decidable (Identifier name) :=
  decidable_of_iff (placeholder? (tag name) = some (name,[]))
    ⟨fun h => (tag_of_placeholder? h).1,
      fun h => by simpa using placeholder?_tag h []⟩

instance (text : List Char) : Decidable (Tagged text) :=
  decidable_of_iff (∀ rest ∈ text.tails, rest.head? = some '<' → (placeholder? rest).isSome) <| by
    simp only [List.mem_tails,placeholder?_isSome_iff]
    constructor
    · intro h before after htext
      exact h ('<' :: after) ⟨before,htext.symm⟩ rfl
    · intro h rest ⟨before,htext⟩ hopen
      obtain ⟨after,rfl⟩ := List.head?_eq_some_iff.mp hopen
      exact h before after htext.symm

theorem Tagged.append_right (first : List Char) {text : List Char} (h : Tagged (first ++ text)) :
    Tagged text := by
  intro before after htext
  exact h (first ++ before) after (by rw [htext,List.append_assoc])

namespace Split

/-- No literal has an opening bracket. -/
structure Bare (s : Split) : Prop where
  first : '<' ∉ s.first
  literals : ∀ part ∈ s.rest, '<' ∉ part.2

theorem bare_of_tagged {cs : List Char} (h : Tagged cs) : (ofPieces (pieces cs)).Bare := by
  fun_induction pieces cs with
  | case1 => exact ⟨by simp [ofPieces],by simp [ofPieces]⟩
  | case2 c cs name rest hplace ih =>
    rw [(tag_of_placeholder? hplace).2] at h
    obtain ⟨hfirst,hliterals⟩ := ih (h.append_right _)
    exact ⟨by simp [ofPieces],List.forall_mem_cons.mpr ⟨hfirst,hliterals⟩⟩
  | case3 c cs hplace ih =>
    obtain ⟨hfirst,hliterals⟩ := ih (Tagged.append_right [c] h)
    have hc : '<' ≠ c := by
      rintro rfl
      obtain ⟨name,hname,after,hafter⟩ := h [] cs rfl
      rw [← hafter,placeholder?_tag hname] at hplace
      cases hplace
    exact ⟨List.not_mem_cons_of_ne_of_not_mem hc hfirst,hliterals⟩

/-- A replacement in a text in which some placeholders are filled already. What was filled in has no
opening bracket, so the placeholders that are left are those of the template. -/
theorem Bare.replaceIn_joined {key : List Char} (hkey : Identifier key) (by_ : List Char)
    {fill : List Char → List Char} (hfill : ∀ name, fill name = tag name ∨ '<' ∉ fill name)
    {s : Split} (hclean : s.Clean) (h : s.Bare) {fuel : Nat} (hfuel : (s.joined fill).length ≤ fuel) :
    replaceIn (tag key) by_ fuel (s.joined fill) =
      s.joined fun name => if fill name = tag key then by_ else fill name := by
  obtain ⟨first,rest⟩ := s
  induction rest generalizing first fuel with
  | nil =>
    have hskip := replaceIn_skip by_ (splitFirst_free key [] h.first) fuel
    have hnil : replaceIn (tag key) by_ fuel [] = [] := by
      cases fuel <;> simp [replaceIn,splitFirst,tag]
    simpa [joined,hnil] using hskip
  | cons part rest ih =>
    obtain ⟨name,literal⟩ := part
    obtain ⟨_,hname,hclean⟩ := clean_cons_iff.mp hclean
    have hrest : Bare ⟨literal,rest⟩ :=
      ⟨h.literals _ List.mem_cons_self,fun _ hm => h.literals _ (List.mem_cons_of_mem _ hm)⟩
    simp only [joined_cons,List.length_append] at hfuel ⊢
    rw [replaceIn_skip by_ (splitFirst_free key _ h.first)]
    refine congrArg (first ++ ·) ?_
    have hskip (hs : splitFirst (tag key) (fill name ++ joined fill ⟨literal,rest⟩) =
        (splitFirst (tag key) (joined fill ⟨literal,rest⟩)).map fun (before,after) =>
          (fill name ++ before,after)) (hne : fill name ≠ tag key) :
        replaceIn (tag key) by_ fuel (fill name ++ joined fill ⟨literal,rest⟩) =
          (if fill name = tag key then by_ else fill name) ++
            joined (fun name => if fill name = tag key then by_ else fill name) ⟨literal,rest⟩ := by
      rw [replaceIn_skip by_ hs,ih _ hclean hrest (by omega),if_neg hne]
    rcases hfill name with htag | hfree
    · by_cases hk : name = key
      · subst hk
        obtain ⟨fuel,rfl⟩ : ∃ n, fuel = n + 1 := ⟨fuel - 1,by simp [htag,tag] at hfuel; omega⟩
        rw [if_pos htag,htag,replaceIn,splitFirst_tag]
        simp only [List.nil_append]
        rw [ih _ hclean hrest (by simp [htag,tag] at hfuel; omega)]
      · refine hskip ?_ ?_
        · rw [htag]
          exact splitFirst_other hkey hname hk
        · rw [htag]
          intro he
          exact hk (tag_eq_of_append hkey hname (congrArg (· ++ []) he))
    · refine hskip (splitFirst_free key _ hfree) ?_
      intro he
      rw [he] at hfree
      simp [tag] at hfree

end Split

namespace Params

/-- Parameters named by identifiers, with values that have no opening bracket. -/
def Plain (p : Params) : Prop :=
  ∀ e ∈ p.entries, Identifier e.1.toList ∧ '<' ∉ e.2.toList

instance (p : Params) : Decidable p.Plain :=
  List.decidableBAll _ _

theorem mem_of_get? {p : Params} {key value : String} (h : p.get? key = some value) :
    (key,value) ∈ p.entries := by
  obtain ⟨before,after,he,_⟩ := List.lookup_eq_some_iff.mp h
  rw [he]
  exact List.mem_append_right before List.mem_cons_self

/-- Without a name that stands twice, the order does not matter to a look-up. -/
theorem get?_perm {p q : Params} (hd : (p.entries.map Prod.fst).Nodup)
    (hp : q.entries.Perm p.entries) : q.get? = p.get? := by
  have hd' : (q.entries.map Prod.fst).Nodup := (hp.map Prod.fst).nodup_iff.mpr hd
  funext key
  refine Option.ext fun value => ?_
  constructor
  · intro h
    exact FileTree.lookup_of_mem hd (hp.mem_iff.mp (mem_of_get? h))
  · intro h
    exact FileTree.lookup_of_mem hd' (hp.mem_iff.mpr (mem_of_get? h))

end Params

namespace Split

variable {p : Params}

theorem value_free (h : p.Plain) (name : List Char) : value p name = tag name ∨ '<' ∉ value p name := by
  unfold value
  cases hv : p.get? (String.ofList name) with
  | none => exact .inl rfl
  | some v => exact .inr (h _ (Params.mem_of_get? hv)).2

/-- One more parameter fills the placeholders of its name, unless an earlier one has filled them. -/
theorem value_concat (h : p.Plain) (key v : String) (name : List Char) :
    value ⟨p.entries ++ [(key,v)]⟩ name =
      if value p name = tag key.toList then v.toList else value p name := by
  have hlookup : Params.get? ⟨p.entries ++ [(key,v)]⟩ (String.ofList name) =
      (p.get? (String.ofList name)).or (if name = key.toList then some v else none) := by
    have hname : String.ofList name = key ↔ name = key.toList := by
      rw [← String.toList_inj,String.toList_ofList]
    simp [Params.get?,List.lookup_append,hname]
  have hfree := value_free h name
  unfold value at hfree ⊢
  rw [hlookup]
  cases hv : p.get? (String.ofList name) with
  | none => by_cases hk : name = key.toList <;> simp [hk,tag]
  | some w =>
    have hw : '<' ∉ w.toList := (h _ (Params.mem_of_get? hv)).2
    have hne : w.toList ≠ tag key.toList := by
      intro he
      rw [he] at hw
      simp [tag] at hw
    simp [hne]

/-- The parameters so far have filled their placeholders, and the next ones go on from there. -/
theorem foldl_joined {s : Split} (hclean : s.Clean) (hbare : s.Bare)
    (done todo : List (String × String))
    (h : Params.Plain ⟨done ++ todo⟩) :
    todo.foldl (fun text (k,v) => Text.replace text ("<" ++ k ++ ">") v)
        (String.ofList (s.joined (value ⟨done⟩))) =
      String.ofList (s.joined (value ⟨done ++ todo⟩)) := by
  induction todo generalizing done with
  | nil => simp
  | cons e todo ih =>
    obtain ⟨k,v⟩ := e
    have hdone : Params.Plain ⟨done⟩ := fun e hm => h e (List.mem_append_left _ hm)
    have hk : Identifier k.toList := (h (k,v) (by simp)).1
    have htag : ("<" ++ k ++ ">").toList = tag k.toList := by simp [tag]
    have hstep : Text.replace (String.ofList (s.joined (value ⟨done⟩))) ("<" ++ k ++ ">") v =
        String.ofList (s.joined (value ⟨done ++ [(k,v)]⟩)) := by
      rw [Text.replace,htag,String.toList_ofList,
        hbare.replaceIn_joined hk _ (value_free hdone) hclean (Nat.le_refl _)]
      simp only [← value_concat hdone]
    have hall : Params.Plain ⟨done ++ [(k,v)] ++ todo⟩ := by simpa using h
    simp only [List.foldl_cons,hstep,ih _ hall,List.append_assoc,List.singleton_append]

end Split

/-- Either way, what is filled in are the values between the literals. -/
theorem substitute_joined {template : String} (ht : Tagged template.toList) {p : Params}
    (hp : p.Plain) (mode : Mode) : substitute template p mode =
      String.ofList ((Split.ofPieces (pieces template.toList)).joined (Split.value p)) := by
  have hclean := Split.clean_ofPieces template.toList
  have htext := Split.joined_ofPieces template.toList
  cases mode with
  | sequential =>
    have hfold := Split.foldl_joined hclean (Split.bare_of_tagged ht) [] p.entries hp
    have hnone : Split.value ⟨[]⟩ = tag := rfl
    rw [hnone,htext,String.ofList_toList] at hfold
    exact hfold
  | singlePass =>
    have hpieces := hclean.pieces_joined
    rw [htext] at hpieces
    rw [substitute,fillOnce,hpieces,Split.fill_toPieces,← hpieces]

/-- In a template in which every opening bracket opens a placeholder, parameters that are named by
identifiers and whose values have no opening bracket are filled in alike in sequence and in a single
pass. The order in which they stand does not show in the text. -/
theorem substitute_plain {template : String} (ht : Tagged template.toList) :
    (∀ p : Params, p.Plain →
      substitute template p .sequential = substitute template p .singlePass) ∧
    ∀ pairs pairs', (Params.ofList pairs).Plain →
      (Params.ofList pairs').entries.Perm (Params.ofList pairs).entries → ∀ mode,
        substitute template (Params.ofList pairs') mode =
          substitute template (Params.ofList pairs) mode := by
  constructor
  · intro p hp
    rw [substitute_joined ht hp,substitute_joined ht hp]
  · intro pairs pairs' hp hperm mode
    have hp' : (Params.ofList pairs').Plain := fun e he => hp e (hperm.mem_iff.mp he)
    have hvalue : Split.value (Params.ofList pairs') = Split.value (Params.ofList pairs) := by
      funext name
      rw [Split.value,Params.get?_perm (Params.keys_ofList_nodup pairs) hperm,Split.value]
    rw [substitute_joined ht hp,substitute_joined ht hp',hvalue]

/-- A name that is set twice, and a value with a closing bracket. -/
theorem substitute_plain_greeting :
    let template := "Hello <NAME>>\nCode: <FUNCTION>"
    let p := Params.ofList [("NAME","X>"),("FUNCTION","int y;")]
    let q := Params.ofList [("FUNCTION","int x;"),("NAME","X>"),("FUNCTION","int y;")]
    Tagged template.toList ∧ p.Plain ∧ q.entries.Perm p.entries ∧
      substitute template q .sequential = substitute template p .singlePass := by
  intro template p q
  have ht : Tagged template.toList := by decide +kernel
  have hp : p.Plain := by decide +kernel
  have hperm : q.entries.Perm p.entries := by decide +kernel
  obtain ⟨hmodes,horder⟩ := substitute_plain ht
  exact ⟨ht,hp,hperm,(horder _ _ hp hperm _).trans (hmodes p hp)⟩

/-- A bracket that opens no placeholder may open one with a value behind it. -/
example : let p : Params := ⟨[("A","B"),("B","b")]⟩
    ¬ Tagged "<<A>>".toList ∧ substitute "<<A>>" p .sequential = "b" ∧
      substitute "<<A>>" p .singlePass = "<B>" := by
  decide +kernel

end EndpointAudit.Prompt
