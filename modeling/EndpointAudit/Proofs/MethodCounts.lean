import EndpointAudit.Proofs.FindingOrder
import EndpointAudit.Proofs.Surveys
import EndpointAudit.Proofs.Trimming
import EndpointAudit.Stages.Summary
import Mathlib.Algebra.BigOperators.Group.List.Lemmas
import Mathlib.Algebra.Ring.Nat

namespace EndpointAudit

open EndpointAudit.Detection (Ascending eq_of_ascending lookup_insertMember)

namespace Stages.SummaryInput

variable {e : Endpoint} {name : String} {names names' : List String} {counts counts' : List (String × Nat)}
  {n : Nat}

/-- The name by which an endpoint is counted: its declared method, or that of its request if none is
declared, in upper case and without blanks at its ends. Blanks alone are an unknown method. -/
def CountedAs (e : Endpoint) (name : String) : Prop :=
  ∃ core, Text.Core (if e.declaredMethod = "" then e.request.method else e.declaredMethod).toList core ∧
    name = if core = [] then "UNKNOWN" else Text.upper (String.ofList core)

theorem countedAs_iff : CountedAs e name ↔ countedMethod e = name := by
  have hmethod : (if e.declaredMethod = "" then e.request.method else e.declaredMethod) = e.method := by
    simp [Endpoint.method,String.isEmpty_iff]
  simp only [CountedAs,hmethod,Text.core_iff,exists_eq_left',countedMethod,Text.isBlankText_iff,Text.trim]
  exact eq_comm

instance : Decidable (CountedAs e name) :=
  decidable_of_iff _ countedAs_iff.symm

/-- Counts of names, each as often as it stands among some names, and of no others. -/
structure Counting (names : List String) (counts : List (String × Nat)) : Prop where
  ascending : Ascending counts
  lookup_eq : ∀ name, counts.lookup name = if name ∈ names then some (names.count name) else none

theorem counting_nil : Counting [] [] :=
  ⟨.nil,by simp⟩

theorem Counting.count (h : Counting names counts) (name : String) :
    Counting (names ++ [name]) (count counts name) where
  ascending := h.ascending.insertMember _ _
  lookup_eq k := by
    rw [SummaryInput.count,lookup_insertMember,h.lookup_eq,h.lookup_eq]
    by_cases hk : k = name
    · subst hk
      by_cases hm : k ∈ names
      · simp [hm]
      · simp [hm,List.count_eq_zero.mpr hm]
    · simp [hk,Ne.symm hk]

theorem counting_foldl (h : Counting names counts) (es : List Endpoint) :
    Counting (names ++ es.map countedMethod)
      (es.foldl (fun counts e => SummaryInput.count counts (countedMethod e)) counts) := by
  induction es generalizing names counts with
  | nil => simpa using h
  | cons e es ih =>
    have hnext := ih (h.count (countedMethod e))
    rwa [List.append_assoc] at hnext

theorem counting_methodCounts (es : List Endpoint) :
    Counting (es.map countedMethod) (methodCounts es) :=
  counting_foldl counting_nil es

theorem Counting.mem_iff (h : Counting names counts) :
    (name,n) ∈ counts ↔ 0 < n ∧ n = names.count name := by
  have hlookup : (name,n) ∈ counts ↔ counts.lookup name = some n := by
    constructor
    · exact FileTree.lookup_of_mem h.ascending.nodup
    · intro hn
      obtain ⟨before,after,rfl,_⟩ := List.lookup_eq_some_iff.mp hn
      exact List.mem_append_right before List.mem_cons_self
  rw [hlookup,h.lookup_eq]
  by_cases hm : name ∈ names
  · have hpos := List.count_pos_iff.mpr hm
    rw [if_pos hm,Option.some.injEq]
    constructor
    · rintro rfl
      exact ⟨hpos,rfl⟩
    · rintro ⟨_,rfl⟩
      rfl
  · rw [if_neg hm,List.count_eq_zero.mpr hm]
    simp only [reduceCtorEq,false_iff,not_and]
    exact Nat.ne_of_gt

theorem Counting.sum_eq (h : Counting names counts) : (counts.map Prod.snd).sum = names.length := by
  have hnumbers : counts.map Prod.snd = (counts.map Prod.fst).map (names.count ·) := by
    rw [List.map_map]
    refine List.map_congr_left ?_
    rintro ⟨name,n⟩ hm
    exact (h.mem_iff.mp hm).2
  have hnames : (counts.map Prod.fst).Perm names.dedup := by
    refine (List.perm_ext_iff_of_nodup h.ascending.nodup names.nodup_dedup).mpr ?_
    intro name
    rw [List.mem_dedup,← @List.count_pos_iff _ _ _ _ names,List.mem_map]
    constructor
    · rintro ⟨⟨_,n⟩,hm,rfl⟩
      obtain ⟨hpos,rfl⟩ := h.mem_iff.mp hm
      exact hpos
    · intro hpos
      exact ⟨_,h.mem_iff.mpr ⟨hpos,rfl⟩,rfl⟩
  rw [hnumbers,(hnames.map _).sum_eq,List.sum_map_count_dedup_eq_length]

theorem Counting.unique (h : Counting names counts) (h' : Counting names' counts')
    (hp : names.Perm names') : counts = counts' := by
  refine eq_of_ascending h.ascending h'.ascending ?_
  rintro ⟨name,n⟩
  rw [h.mem_iff,h'.mem_iff,hp.count_eq]

/-- Findings that ascend within the endpoints leave the others pending. -/
theorem findings_pending {c : Context} (ha : Context.Ascending c.findings)
    (hb : ∀ f ∈ c.findings, f.index < c.endpoints.length) :
    c.findings.length + c.pending.length = c.endpoints.length := by
  have hall : (c.findings.map Finding.index ++ c.pending).Perm (List.range c.endpoints.length) := by
    refine (List.perm_ext_iff_of_nodup ?_ List.nodup_range).mpr ?_
    · rw [List.nodup_append]
      refine ⟨ha.index_nodup,Context.pending_nodup c,?_⟩
      intro i hi j hj he
      obtain ⟨f,hf,rfl⟩ := List.mem_map.mp hi
      exact (Context.mem_pending.mp hj).2 f hf he
    · intro i
      rw [List.mem_append,List.mem_range,Context.mem_pending]
      constructor
      · rintro (hi | ⟨hi,_⟩)
        · obtain ⟨f,hf,rfl⟩ := List.mem_map.mp hi
          exact hb f hf
        · exact hi
      · intro hi
        refine (Classical.em (i ∈ c.findings.map Finding.index)).imp_right fun hn => ⟨hi,?_⟩
        intro f hf he
        exact hn (List.mem_map.mpr ⟨f,hf,he⟩)
  simpa using hall.length_eq

/-- How a count is written. -/
def countText (m : String × Nat) : String :=
  m.1 ++ "=" ++ toString m.2

theorem countTexts_isEmpty (counts : List (String × Nat)) :
    (", ".intercalate (counts.map countText)).isEmpty = true ↔ counts = [] := by
  have htext (m : String × Nat) : countText m ≠ "" := by
    intro he
    have := congrArg String.length he
    simp [countText] at this
  rw [String.isEmpty_iff]
  cases counts with
  | nil => simp
  | cons m counts =>
    cases counts with
    | nil => simp [htext]
    | cons m' counts => simp [htext,String.intercalate_cons_cons]

/-- What an overview says about the rate of success, if there is one. -/
def rateText (tally : Option Tally) : String :=
  ((tally.bind Tally.rate).map fun rate =>
    " Success rate: " ++ Decimal.fixedText 2 (.ofFloat rate) ++ "%.").getD ""

theorem overview_eq (i : SummaryInput) : i.overview =
    toString i.endpoints.length ++ " APIs found (" ++
      (if methodCounts i.endpoints = [] then "none" else
        ", ".intercalate ((methodCounts i.endpoints).map countText)) ++
      "). " ++ toString i.findings.length ++ " analyzed, " ++ toString i.pending ++ " without result." ++
      rateText i.tally := by
  simp only [← countTexts_isEmpty (methodCounts i.endpoints)]
  unfold overview rateText
  cases i.tally.bind Tally.rate with
  | none =>
    rw [Option.map_none,Option.getD_none,String.append_empty]
    rfl
  | some rate =>
    rw [Option.map_some,Option.getD_some,← String.append_assoc,← String.append_assoc]
    rfl

/-- The overview of a report gives the number of endpoints, of those for each method, of those analyzed
and of those without result. The counts stand under names of their own in ascending order, add up to all
endpoints, and two endpoints are in one count exactly if they are counted by the same name; in which order
the endpoints stand makes no difference. -/
theorem overview_consistent {c : Context} (ha : Context.Ascending c.findings)
    (hb : ∀ f ∈ c.findings, f.index < c.endpoints.length) : ∃ counts : List (String × Nat),
    (ofContext c).report.overview = toString c.endpoints.length ++ " APIs found (" ++
      (if counts = [] then "none" else
        ", ".intercalate (counts.map fun m => m.1 ++ "=" ++ toString m.2)) ++ "). " ++
      toString c.findings.length ++ " analyzed, " ++ toString c.pending.length ++ " without result." ++
      rateText c.tally ∧
    counts.Pairwise (fun m m' => m.1 < m'.1) ∧
    (∀ name n, (name,n) ∈ counts ↔ 0 < n ∧ n = c.endpoints.countP fun e => CountedAs e name) ∧
    (counts.map Prod.snd).sum = c.endpoints.length ∧ (∀ e, ∃! name, CountedAs e name) ∧
    (∀ e ∈ c.endpoints, ∀ e' ∈ c.endpoints,
      (∃ m ∈ counts, CountedAs e m.1 ∧ CountedAs e' m.1) ↔ ∃ name, CountedAs e name ∧ CountedAs e' name) ∧
    (∀ es, es.Perm c.endpoints → methodCounts es = counts) ∧
    c.findings.length + c.pending.length = c.endpoints.length := by
  have hc := counting_methodCounts c.endpoints
  have hcount (name : String) : (c.endpoints.map countedMethod).count name =
      c.endpoints.countP fun e => CountedAs e name := by
    rw [List.count_eq_countP,List.countP_map]
    refine List.countP_congr fun e _ => ?_
    simp [countedAs_iff]
  refine ⟨methodCounts c.endpoints,overview_eq (ofContext c),hc.ascending,?_,?_,?_,?_,?_,
    findings_pending ha hb⟩
  · intro name n
    rw [hc.mem_iff,hcount]
  · rw [hc.sum_eq,List.length_map]
  · intro e
    exact ⟨countedMethod e,countedAs_iff.mpr rfl,fun name hname => (countedAs_iff.mp hname).symm⟩
  · intro e he e' _
    constructor
    · rintro ⟨m,_,hm⟩
      exact ⟨m.1,hm⟩
    · rintro ⟨name,hname⟩
      have hpos : 0 < (c.endpoints.map countedMethod).count name := by
        rw [List.count_pos_iff]
        exact List.mem_map.mpr ⟨e,he,countedAs_iff.mp hname.1⟩
      exact ⟨(name,_),hc.mem_iff.mpr ⟨hpos,rfl⟩,hname⟩
  · intro es hp
    exact (counting_methodCounts es).unique hc (hp.map _)

/-- Four endpoints whose methods are written in different ways, two of them analyzed. -/
def stock : Context where
  endpoints := [{ request := { method := "get" } },
    { declaredMethod := " Post ", request := { method := "GET" } },{ request := { method := "\t" } },
    { declaredMethod := "Get\n" }]
  findings := [⟨0,{ request := { method := "get" } },"",.incomplete⟩,
    ⟨3,{ declaredMethod := "Get\n" },"",.incomplete⟩]

theorem overview_consistent_stock :
    Context.Ascending stock.findings ∧ (∀ f ∈ stock.findings, f.index < stock.endpoints.length) ∧
      methodCounts stock.endpoints.reverse = [("GET",2),("POST",1),("UNKNOWN",1)] ∧
      stock.findings.length + stock.pending.length = 4 := by
  have ha : Context.Ascending stock.findings := by simp [Context.Ascending,stock]
  have hb : ∀ f ∈ stock.findings, f.index < stock.endpoints.length := by simp [stock]
  have hcounts : methodCounts stock.endpoints = [("GET",2),("POST",1),("UNKNOWN",1)] := by decide
  obtain ⟨_,_,_,_,_,_,_,horder,htotal⟩ := overview_consistent ha hb
  refine ⟨ha,hb,?_,htotal⟩
  rw [horder _ (List.reverse_perm _),← horder _ (.refl _),hcounts]

end Stages.SummaryInput

end EndpointAudit
