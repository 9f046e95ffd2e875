import EndpointAudit.Proofs.MadeDirs
import EndpointAudit.Proofs.SessionRecords
import Mathlib.Data.Finset.Sort

namespace EndpointAudit

open EndpointAudit.Path

section byteOrder

theorem toNat_byte {n : Nat} (h : n < 256) : (UInt8.ofNat n).toNat = n :=
  UInt8.toNat_ofNat_of_lt' h

theorem digit_lt {m n : Nat} (h : m < n) :
    m / 64 < n / 64 ∨ m / 64 = n / 64 ∧ m % 64 < n % 64 := by
  omega

/-- Of two numbers the smaller one has the smaller digits to the base 64: the first that differs counts. -/
theorem digits_lt {m n : Nat} (h : m < n) (hn : n < 1114112) :
    m / 262144 % 8 < n / 262144 % 8 ∨ m / 262144 % 8 = n / 262144 % 8 ∧
      (m / 4096 % 64 < n / 4096 % 64 ∨ m / 4096 % 64 = n / 4096 % 64 ∧
        (m / 64 % 64 < n / 64 % 64 ∨ m / 64 % 64 = n / 64 % 64 ∧ m % 64 < n % 64)) := by
  rcases digit_lt h with h | h
  · rcases digit_lt h with h' | h'
    · have h'' := digit_lt h'
      omega
    · omega
  · omega

/-- A smaller character has smaller bytes, whatever follows. -/
theorem utf8EncodeChar_lt {a b : Char} (h : a < b) (as bs : List UInt8) :
    String.utf8EncodeChar a ++ as < String.utf8EncodeChar b ++ bs := by
  have hlt : a.val.toNat < b.val.toNat := h
  have hmax : b.val.toNat < 1114112 := b.valid.elim (fun h => by omega) And.right
  have hdigits := digits_lt hlt hmax
  unfold String.utf8EncodeChar
  generalize a.val.toNat = m at hlt hdigits ⊢
  generalize b.val.toNat = n at hlt hmax hdigits ⊢
  -- both lengths of the two characters matter, and the digits only where both have four bytes
  simp only
  split_ifs <;>
    simp (disch := omega) only [List.cons_append,List.nil_append,List.cons_lt_cons_iff,
      UInt8.lt_iff_toNat_lt,toNat_byte,← UInt8.toNat_inj] <;> omega

theorem utf8Encode_lt {as bs : List Char} (h : as < bs) :
    as.flatMap String.utf8EncodeChar < bs.flatMap String.utf8EncodeChar := by
  induction h with
  | nil =>
    rename_i b bs
    obtain ⟨x,xs,hx⟩ : ∃ x xs, String.utf8EncodeChar b = x :: xs :=
      List.exists_cons_of_length_pos (String.length_utf8EncodeChar b ▸ Char.utf8Size_pos b)
    rw [List.flatMap_cons,hx]
    exact List.nil_lt_cons _ _
  | cons h ih => exact List.append_left_lt ih
  | rel h => exact utf8EncodeChar_lt h _ _

theorem bytes_lt {a b : String} (h : a < b) : a.toUTF8.data < b.toUTF8.data := by
  have h := utf8Encode_lt (String.lt_iff_toList_lt.mp h)
  rw [← Array.lt_toList]
  simpa [← String.utf8Encode_toList,List.utf8Encode] using h

/-- Names in the order of their bytes, each once. -/
def InByteOrder (ns : List String) : Prop :=
  ns.Pairwise fun a b => a.toUTF8.data < b.toUTF8.data

theorem inByteOrder_of_lt {ns : List String} (h : ns.Pairwise (· < ·)) : InByteOrder ns :=
  h.imp bytes_lt

/-- There is one such order of given names. -/
theorem InByteOrder.unique {ns ms : List String} (h : InByteOrder ns) (h' : InByteOrder ms)
    (hm : ∀ n, n ∈ ns ↔ n ∈ ms) : ns = ms := by
  have hasymm : Std.Asymm fun a b : String => a.toUTF8.data < b.toUTF8.data :=
    ⟨fun a b => Std.Asymm.asymm a.toUTF8.data b.toUTF8.data⟩
  have hanti : Std.Antisymm fun a b : String => a.toUTF8.data < b.toUTF8.data :=
    ⟨fun a b hab hba => absurd hba (hasymm.asymm a b hab)⟩
  have hirrefl : Std.Irrefl fun a b : String => a.toUTF8.data < b.toUTF8.data :=
    ⟨fun a ha => hasymm.asymm a a ha ha⟩
  exact List.Pairwise.eq_of_mem_iff h h' hm

end byteOrder

namespace FileTree

/-- What a record file adds: its endpoints, or nothing if it cannot be read or decoded. -/
def reported (t : FileTree) (path : String) : List Endpoint :=
  ((RecordFile.load t path).toOption).getD []

/-- Two trees that differ only at some places, where each has a file or nothing. -/
structure Touched (S : Set Location) (t t' : FileTree) : Prop where
  cwd_eq : t'.cwd = t.cwd
  elsewhere : ∀ loc, loc ∉ S → t'.node? loc = t.node? loc
  before : ∀ loc ∈ S, ∀ n, t.node? loc = some n → n.isFile
  after : ∀ loc ∈ S, ∀ n, t'.node? loc = some n → n.isFile

/-- A path leads to one of these places. -/
def LeadsInto (t : FileTree) (S : Set Location) (path : String) : Prop :=
  ∃ loc n, t.locate path = .ok (loc,n) ∧ loc ∈ S

/-- A walk that ends at one of these places, if anywhere. -/
def Within (S : Set Location) : Except IoFault (Location × Option Node) → Prop
  | .error _ => True
  | .ok (loc,_) => loc ∈ S

/-- Two walks with the same end, unless both end at one of these places, if anywhere. -/
def Agree (S : Set Location) (r r' : Except IoFault (Location × Option Node)) : Prop :=
  r' = r ∨ Within S r ∧ Within S r'

variable {t t' : FileTree} {S : Set Location} {here loc : Location} {piece : String}

/-- A walk does not get beyond a file. -/
theorem walkTo_within {followLast : Bool}
    {jump : Location → List String → Except IoFault (Location × Option Node)} (rest : List String)
    (hskip : ¬ (piece = "" ∨ piece = ".")) (hup : piece ≠ "..")
    (hS : here ++ [piece] ∈ S) (hfile : ∀ n, t.node? (here ++ [piece]) = some n → n.isFile) :
    Within S (t.walkTo followLast jump here (piece :: rest)) := by
  rw [walkTo,if_neg hskip,if_neg hup]
  split
  · trivial
  simp only
  cases hn : t.node? (here ++ [piece]) with
  | none =>
    simp only
    split
    · exact hS
    · trivial
  | some n =>
    have hn := hfile n hn
    cases n with
    | file bytes x =>
      simp only
      split
      · exact hS
      · trivial
    | dir | link target => cases hn

theorem Touched.walkTo (h : t.Touched S t') {followLast : Bool}
    {jump jump' : Location → List String → Except IoFault (Location × Option Node)}
    (hj : ∀ here ps, Agree S (jump here ps) (jump' here ps)) (here : Location) (ps : List String) :
    Agree S (t.walkTo followLast jump here ps) (t'.walkTo followLast jump' here ps) := by
  induction ps generalizing here with
  | nil =>
    by_cases hS : here ∈ S
    · exact .inr ⟨hS,hS⟩
    · exact .inl (by rw [FileTree.walkTo,FileTree.walkTo,h.elsewhere here hS])
  | cons piece rest ih =>
    by_cases hskip : piece = "" ∨ piece = "."
    · rw [FileTree.walkTo,FileTree.walkTo,if_pos hskip,if_pos hskip]
      exact ih here
    by_cases hup : piece = ".."
    · rw [FileTree.walkTo,FileTree.walkTo,if_neg hskip,if_neg hskip,if_pos hup,if_pos hup]
      exact ih here.dropLast
    by_cases hS : here ++ [piece] ∈ S
    · exact .inr ⟨walkTo_within rest hskip hup hS (h.before _ hS),
        walkTo_within rest hskip hup hS (h.after _ hS)⟩
    rw [FileTree.walkTo,FileTree.walkTo,if_neg hskip,if_neg hskip,if_neg hup,if_neg hup]
    split
    · exact .inl rfl
    simp only [h.elsewhere _ hS]
    cases t.node? (here ++ [piece]) with
    | none => exact .inl rfl
    | some n =>
      cases n with
      | file bytes x => exact .inl rfl
      | dir => exact ih _
      | link target =>
        simp only
        split
        · exact .inl rfl
        · exact hj _ _

theorem Touched.walk (h : t.Touched S t') {followLast : Bool} (links : Nat) (here : Location)
    (ps : List String) : Agree S (t.walk followLast links here ps) (t'.walk followLast links here ps) := by
  induction links generalizing here ps with
  | zero => exact h.walkTo (fun _ _ => .inl rfl) here ps
  | succ links ih => exact h.walkTo ih here ps

theorem Touched.locate (h : t.Touched S t') (path : String) (followLast : Bool) :
    Agree S (t.locate path followLast) (t'.locate path followLast) := by
  unfold FileTree.locate
  rw [h.cwd_eq]
  split
  · exact .inl rfl
  split
  · exact .inl rfl
  split
  · exact .inl rfl
  · exact h.walk _ _ _

/-- What a path that does not lead into these places adds is not touched. -/
theorem Touched.reported_eq (h : t.Touched S t') {path : String} (hp : ¬ t.LeadsInto S path)
    (hp' : ¬ t'.LeadsInto S path) : t'.reported path = t.reported path := by
  rw [reported,reported,records_load,records_load,FileTree.read,FileTree.read,find,find]
  rcases h.locate path true with he | ⟨hw,hw'⟩
  · rw [he]
  · have hfault {t : FileTree} (hp : ¬ t.LeadsInto S path) (hw : Within S (t.locate path)) :
        ∃ f, t.locate path = .error f := by
      rcases hl : t.locate path with f | ⟨loc,n⟩
      · exact ⟨f,rfl⟩
      · rw [hl] at hw
        exact absurd ⟨loc,n,hl,hw⟩ hp
    obtain ⟨f,hf⟩ := hfault hp hw
    obtain ⟨f',hf'⟩ := hfault hp' hw'
    rw [hf,hf']
    rfl

theorem reported_isFile (t : FileTree) (path : String) :
    (if t.isFile path then t.reported path else []) = t.reported path := by
  have h := records_isFile t path
  rw [← records_load] at h
  cases hf : t.isFile path with
  | true => rfl
  | false =>
    simp only [hf] at h
    exact h

/-- What does not stand in a directory adds nothing. -/
theorem Sound.reported_unlisted (ht : t.Sound) {path name : String} (hp : path ≠ "")
    (hn : Plain name) (hnone : name ∉ Glob.namesIn t path) : t.reported (join path name) = [] := by
  rw [reported,records_load]
  cases hread : t.read (join path name) with
  | error f => rfl
  | ok bytes =>
    obtain ⟨loc,x,hl⟩ := read_ok_iff.mp hread
    obtain ⟨d,m,hd,hm⟩ := ht.child_found hp hn hl
    exact absurd (Glob.mem_namesIn.mpr ⟨d,m,hd,mem_entries_of_node? (by simp) hm⟩) hnone

/-- A tree is the same in whatever order its entries are listed. -/
theorem Sound.reordered (ht : t.Sound) (hp : t'.entries.Perm t.entries) (hc : t'.cwd = t.cwd) :
    t'.Sound ∧ t.Touched ∅ t' := by
  have hunique : (t'.entries.map Prod.fst).Nodup := (hp.map _).nodup_iff.mpr ht.unique
  have hnode (loc : Location) : t'.node? loc = t.node? loc := by
    unfold node?
    split
    · rfl
    · refine Option.ext fun n => ?_
      constructor
      · intro hn
        obtain ⟨before,after,he,_⟩ := List.lookup_eq_some_iff.mp hn
        exact lookup_of_mem ht.unique (hp.mem_iff.mp (he ▸ by simp))
      · intro hn
        obtain ⟨before,after,he,_⟩ := List.lookup_eq_some_iff.mp hn
        exact lookup_of_mem hunique (hp.mem_iff.mpr (he ▸ by simp))
  refine ⟨⟨hunique,?_,?_⟩,hc,fun loc _ => hnode loc,nofun,nofun⟩
  · intro e he
    obtain ⟨dir,name,hloc,hname,hdir⟩ := ht.placed e (hp.mem_iff.mp he)
    exact ⟨dir,name,hloc,hname,(hnode dir).trans hdir⟩
  · rw [hc,hnode,ht.inside]

end FileTree

open FileTree (reported)

variable {t t' : FileTree} {session : String}

/-- The path of a record as a search puts it together, without what is redundant in the path of the
session. -/
def recordPath (session name : String) : String :=
  join (respelled (controllerDir session)) name

/-- What is loaded when records of these names are read one after the other. -/
def FileTree.collected (t : FileTree) (session : String) (ns : List String) : List Endpoint :=
  t.reported (join session "api_extraction.json") ++
    ns.flatMap fun n => t.reported (recordPath session n)

theorem names_controllerDir_ne_nil (session : String) : names (controllerDir session) ≠ [] := by
  simp [names_controllerDir]

theorem loadEndpoints_ended (ht : t.Sound) (h : Glob.Literal session.toList) :
    loadEndpoints t session = .ok (t.collected session
      (Glob.ended t (respelled (controllerDir session)) ".json".toList)) := by
  have hfound := Glob.paths?_json ht
    (literal_join (literal_join h (by decide)) (by decide)) (names_controllerDir_ne_nil session)
  have hwhole := records_isFile t (join session "api_extraction.json")
  rw [← records_load] at hwhole
  unfold loadEndpoints
  simp only [hfound,List.flatMap_append,hwhole,List.flatMap_map]
  rfl

/-- Names that stand in one another's place add the same, as long as the others have nothing to add. -/
theorem collected_wider {ns ms : List String} (hns : ns.Pairwise (· < ·)) (hms : ms.Pairwise (· < ·))
    (hsub : ∀ n ∈ ns, n ∈ ms)
    (hrest : ∀ n ∈ ms, n ∉ ns → t.reported (recordPath session n) = []) :
    t.collected session ms = t.collected session ns := by
  have hkept : ms.filter (· ∈ ns) = ns := by
    refine (hms.filter _).eq_of_mem_iff hns ?_
    intro n
    simpa using hsub n
  have hflat (ks : List String) (hk : ∀ n ∈ ks, n ∈ ms) :
      ks.flatMap (fun n => t.reported (recordPath session n)) =
        (ks.filter (· ∈ ns)).flatMap fun n => t.reported (recordPath session n) := by
    induction ks with
    | nil => rfl
    | cons k ks ih =>
      obtain ⟨hfirst,hk⟩ := List.forall_mem_cons.mp hk
      rw [List.flatMap_cons,List.filter_cons,ih hk]
      split
      · rw [List.flatMap_cons]
      · rename_i hnot
        rw [hrest k hfirst (by simpa using hnot)]
        rfl
  rw [FileTree.collected,FileTree.collected,hflat ms fun _ hn => hn,hkept]

/-- A record of a controller: an entry of the session's directory for them whose name ends as that of a
document. -/
def FileTree.Lists (t : FileTree) (session name : String) : Prop :=
  ".json".toList <:+ name.toList ∧ ∃ dir n,
    t.locate (respelled (controllerDir session)) = .ok (dir,some .dir) ∧
      t.node? (dir ++ [name]) = some n

theorem locate_controllerDir (h : Searchable session) :
    t.locate (respelled (controllerDir session)) = t.locate (controllerDir session) := by
  have hsize := size_controllerDir session
  have hmax := h.short
  exact FileTree.locate_respelled (open_join _ ⟨by decide,by decide⟩) (by omega)

theorem mem_ended_iff (ht : t.Sound) {name : String} :
    name ∈ Glob.ended t (respelled (controllerDir session)) ".json".toList ↔
      t.Lists session name := by
  rw [Glob.mem_ended,Glob.mem_namesIn,and_comm,FileTree.Lists]
  refine and_congr_right fun _ => ?_
  constructor
  · intro ⟨dir,n,hdir,hm⟩
    exact ⟨dir,n,hdir,ht.node?_of_mem hm⟩
  · intro ⟨dir,n,hdir,hm⟩
    exact ⟨dir,n,hdir,FileTree.mem_entries_of_node? (by simp) hm⟩

theorem FileTree.Lists.entryName (ht : t.Sound) {name : String} (h : t.Lists session name) :
    FileTree.EntryName name := by
  obtain ⟨_,dir,n,_,hn⟩ := h
  exact (ht.parent hn).1

theorem reported_of_not_lists (ht : t.Sound) {name : String} (hn : Plain name)
    (hending : ".json".toList <:+ name.toList) (hnone : ¬ t.Lists session name) :
    t.reported (recordPath session name) = [] := by
  have hopen := open_spell (isAbsolute (controllerDir session)) (names_controllerDir_ne_nil session)
    fun _ => proper_of_mem_names
  refine ht.reported_unlisted hopen.ne_empty hn ?_
  intro hlisted
  exact hnone ((mem_ended_iff ht).mp (Glob.mem_ended.mpr ⟨hlisted,hending⟩))

/-- What is loaded is what is loaded along any longer list of names. -/
theorem loadEndpoints_along (ht : t.Sound) (h : Glob.Literal session.toList) {ns : List String}
    (hs : ns.Pairwise (· < ·)) (hsub : ∀ n, t.Lists session n → n ∈ ns)
    (hns : ∀ n ∈ ns, Plain n ∧ ".json".toList <:+ n.toList) :
    loadEndpoints t session = .ok (t.collected session ns) := by
  rw [loadEndpoints_ended ht h,collected_wider (Glob.ended_sorted ht _ _) hs]
  · intro n hn
    exact hsub n ((mem_ended_iff ht).mp hn)
  · intro n hn hnot
    exact reported_of_not_lists ht (hns n hn).1 (hns n hn).2 fun hl => hnot ((mem_ended_iff ht).mpr hl)

/-- Two trees are loaded along the names in either. -/
theorem loadEndpoints_both (ht : t.Sound) (ht' : t'.Sound) (h : Glob.Literal session.toList) :
    ∃ ns : List String, ns.Pairwise (· < ·) ∧
      (∀ n, n ∈ ns ↔ t.Lists session n ∨ t'.Lists session n) ∧
      loadEndpoints t session = .ok (t.collected session ns) ∧
      loadEndpoints t' session = .ok (t'.collected session ns) := by
  let dir := respelled (controllerDir session)
  let ns := ((Glob.ended t dir ".json".toList ++ Glob.ended t' dir ".json".toList).toFinset).sort (· ≤ ·)
  have hs : ns.Pairwise (· < ·) := (Finset.sortedLT_sort _).pairwise
  have hm (n : String) : n ∈ ns ↔ t.Lists session n ∨ t'.Lists session n := by
    rw [Finset.mem_sort,List.mem_toFinset,List.mem_append,mem_ended_iff ht,mem_ended_iff ht']
  have hns (n : String) (hn : n ∈ ns) : Plain n ∧ ".json".toList <:+ n.toList := by
    rcases (hm n).mp hn with hl | hl
    · exact ⟨(hl.entryName ht).toPlain,hl.1⟩
    · exact ⟨(hl.entryName ht').toPlain,hl.1⟩
  exact ⟨ns,hs,hm,loadEndpoints_along ht h hs (fun n hn => (hm n).mpr (.inl hn)) hns,
    loadEndpoints_along ht' h hs (fun n hn => (hm n).mpr (.inr hn)) hns⟩

/-- The endpoints of the list for the whole project come first, then those of each record in the byte order of
their names. Nothing else counts: not the order in which the directory lists them, and for each record not
what becomes of the others. -/
theorem loadEndpoints_separate (ht : t.Sound) (h : Glob.Literal session.toList) :
    let whole := join session "api_extraction.json"
    (∃ ns : List String, InByteOrder ns ∧
      (∀ n, n ∈ ns ↔ t.Lists session n) ∧
      (Searchable session →
        t.locate (respelled (controllerDir session)) = t.locate (controllerDir session) ∧
        ∀ n ∈ ns, t.reported (recordPath session n) = t.reported (join (controllerDir session) n)) ∧
      loadEndpoints t session = .ok ((if t.isFile whole then t.reported whole else []) ++
        ns.flatMap fun n => t.reported (recordPath session n))) ∧
    (∀ t' : FileTree, t'.entries.Perm t.entries → t'.cwd = t.cwd →
      loadEndpoints t' session = loadEndpoints t session) ∧
    ∀ (t' : FileTree) (S : Set Location), t'.Sound → t.Touched S t' → ∃ ns : List String,
      InByteOrder ns ∧
      (∀ n, n ∈ ns ↔ t.Lists session n ∨ t'.Lists session n) ∧
      loadEndpoints t session =
        .ok (t.reported whole ++ ns.flatMap fun n => t.reported (recordPath session n)) ∧
      loadEndpoints t' session =
        .ok (t'.reported whole ++ ns.flatMap fun n => t'.reported (recordPath session n)) ∧
      ∀ path, ¬ t.LeadsInto S path → ¬ t'.LeadsInto S path → t'.reported path = t.reported path := by
  intro whole
  refine ⟨?_,?_,?_⟩
  · refine ⟨_,inByteOrder_of_lt (Glob.ended_sorted ht _ _),fun n => mem_ended_iff ht,?_,?_⟩
    · intro hsearch
      refine ⟨locate_controllerDir hsearch,fun n hn => ?_⟩
      have hname := ((mem_ended_iff ht).mp hn).entryName ht
      rw [reported,reported,records_load,records_load,recordPath,read_found hsearch hname]
    · rw [loadEndpoints_ended ht h,FileTree.reported_isFile]
      rfl
  · intro t' hp hc
    obtain ⟨ht',htouched⟩ := ht.reordered hp hc
    obtain ⟨ns,_,_,hl,hl'⟩ := loadEndpoints_both ht ht' h
    have hsame (path : String) : t'.reported path = t.reported path :=
      htouched.reported_eq (fun ⟨_,_,_,hS⟩ => hS) fun ⟨_,_,_,hS⟩ => hS
    rw [hl,hl',FileTree.collected,FileTree.collected]
    simp only [hsame]
  · intro t' S ht' htouched
    obtain ⟨ns,hs,hm,hl,hl'⟩ := loadEndpoints_both ht ht' h
    exact ⟨ns,inByteOrder_of_lt hs,hm,hl,hl',fun path hp hp' => htouched.reported_eq hp hp'⟩

/-- The place of a record that is cut short. -/
def shortPlace : Location :=
  ["a"] ++ ["data"] ++ ["API"] ++ ["B.json"]

/-- A session with a record and another one that is cut short. -/
def shortTree : FileTree :=
  absoluteTree.put shortPlace (.file "[".toUTF8 false)

theorem shortTree_sound : shortTree.Sound :=
  absoluteTree_sound.put rfl (by decide) rfl _

theorem shortTree_touched : shortTree.Touched {shortPlace} absoluteTree := by
  have hplace : shortPlace ≠ [] := List.concat_ne_nil _ _
  have hnode := absoluteTree.node?_put hplace (.file "[".toUTF8 false)
  refine ⟨rfl,?_,?_,?_⟩
  · intro loc hloc
    exact ((hnode loc).trans (if_neg hloc)).symm
  · intro loc hloc n hn
    rw [shortTree,hnode,if_pos (Set.mem_singleton_iff.mp hloc)] at hn
    cases hn
    rfl
  · intro loc hloc n hn
    rw [Set.mem_singleton_iff.mp hloc] at hn
    cases hn

theorem reported_short : shortTree.reported (recordPath "/a" "B.json") = [] := by
  have htext : String.fromUTF8? "[".toUTF8 = some "[" := dif_pos (String.isValidUTF8 _)
  have hparse : (RecordFile.parse "[").toOption.isNone := by decide +kernel
  have hread : (shortTree.read (recordPath "/a" "B.json")).toOption = some "[".toUTF8 := rfl
  rw [reported,records_load,hread,recordsIn,Option.bind_some,htext,Option.bind_some,
    Option.isNone_iff_eq_none.mp hparse]
  rfl

theorem reported_sample : shortTree.reported (recordPath "/a" "A.json") = [sampleEndpoint] := by
  have hread : (shortTree.read (recordPath "/a" "A.json")).toOption = some sampleBytes := rfl
  rw [reported,records_load,hread,recordsIn_sample]

theorem lists_shortTree {name : String} :
    shortTree.Lists "/a" name ↔ name ∈ ["A.json","B.json"] := by
  have hnames : Glob.namesIn shortTree (respelled (controllerDir "/a")) = ["A.json","B.json"] := by
    decide +kernel
  rw [← mem_ended_iff shortTree_sound,Glob.mem_ended,hnames]
  refine and_iff_left_of_imp fun hn => ?_
  rcases List.mem_pair.mp hn with rfl | rfl <;> decide

/-- The record that is cut short takes nothing from the other one, neither while it lies there nor when it is
taken away. -/
theorem loadEndpoints_separate_short :
    shortTree.Sound ∧ Glob.Literal "/a".toList ∧
      loadEndpoints shortTree "/a" = .ok [sampleEndpoint] ∧
      loadEndpoints { shortTree with entries := shortTree.entries.reverse } "/a" =
        .ok [sampleEndpoint] ∧
      absoluteTree.reported (recordPath "/a" "A.json") = [sampleEndpoint] := by
  have hliteral : Glob.Literal "/a".toList := by decide
  obtain ⟨⟨ns,horder,hm,_,hload⟩,hlisted,htouched⟩ := loadEndpoints_separate shortTree_sound hliteral
  have hns : ns = ["A.json","B.json"] :=
    horder.unique (inByteOrder_of_lt (by decide)) fun n => (hm n).trans lists_shortTree
  have hwhole : shortTree.isFile (join "/a" "api_extraction.json") = false := by decide +kernel
  have hsample : loadEndpoints shortTree "/a" = .ok [sampleEndpoint] := by
    rw [hload,hns,hwhole]
    simp [reported_sample,reported_short]
  obtain ⟨_,_,_,_,_,hsame⟩ := htouched absoluteTree {shortPlace} absoluteTree_sound shortTree_touched
  have hapart {t : FileTree} (hl : (t.locate (recordPath "/a" "A.json")).toOption.map Prod.fst =
      some ["a","data","API","A.json"]) : ¬ t.LeadsInto {shortPlace} (recordPath "/a" "A.json") := by
    intro ⟨loc,n,hloc,hS⟩
    rw [hloc,Set.mem_singleton_iff.mp hS] at hl
    have hplace : shortPlace = ["a","data","API","A.json"] := Option.some.inj hl
    exact absurd hplace (by decide)
  refine ⟨shortTree_sound,hliteral,hsample,?_,?_⟩
  · exact (hlisted { shortTree with entries := shortTree.entries.reverse }
      (List.reverse_perm shortTree.entries) rfl).trans hsample
  · rw [hsame _ (hapart (by decide +kernel)) (hapart (by decide +kernel)),reported_sample]

/-- A path with so many slashes behind it. -/
def Path.trailed (path : String) : Nat → String
  | 0 => path
  | n + 1 => trailed path n ++ "/"

section trailed

variable {path name : String}

theorem pieces_trailed (path : String) (n : Nat) :
    pieces (trailed path n) = pieces path ++ List.replicate n "" := by
  induction n with
  | zero => simp [trailed]
  | succ n ih =>
    have hempty : pieces "" = [""] := rfl
    have happend := pieces_append (trailed path n) ""
    rw [String.append_empty] at happend
    rw [trailed,happend,hempty,ih,List.append_assoc,List.replicate_succ']

theorem size_trailed (path : String) (n : Nat) :
    (trailed path n).utf8ByteSize = path.utf8ByteSize + n := by
  induction n with
  | zero => rfl
  | succ n ih =>
    have hslash : "/".utf8ByteSize = 1 := rfl
    rw [trailed,String.utf8ByteSize_append,ih,hslash,Nat.add_assoc]

theorem mem_trailed {c : Char} {n : Nat} (h : c ∈ (trailed path n).toList) :
    c ∈ path.toList ∨ c = '/' := by
  induction n with
  | zero => exact .inl h
  | succ n ih =>
    rw [trailed,String.toList_append,List.mem_append] at h
    exact h.elim ih fun h => .inr (List.mem_singleton.mp h)

theorem literal_trailed (h : Glob.Literal path.toList) (n : Nat) :
    Glob.Literal (trailed path n).toList := by
  intro c hc
  rcases mem_trailed hc with hc | rfl
  · exact h c hc
  · decide

theorem trailed_ne_empty (h : path ≠ "") (n : Nat) : trailed path n ≠ "" := by
  cases n with
  | zero => exact h
  | succ n => simp [trailed]

theorem isAbsolute_trailed (h : path ≠ "") (n : Nat) :
    isAbsolute (trailed path n) = isAbsolute path := by
  induction n with
  | zero => rfl
  | succ n ih =>
    obtain ⟨c,cs,hc⟩ := List.exists_cons_of_ne_nil (mt String.toList_eq_nil_iff.mp (trailed_ne_empty h n))
    rw [← ih]
    simp [isAbsolute,trailed,hc]

/-- Slashes behind the path of a directory lead no further. -/
theorem FileTree.locate_trailed {loc : Location} {n : Nat} (h : t.locate path = .ok (loc,some .dir))
    (hn : path.utf8ByteSize + n ≤ maxPathBytes) :
    t.locate (trailed path n) = .ok (loc,some .dir) := by
  obtain ⟨husable,hwalk⟩ := locate_eq_ok_iff.mp h
  obtain ⟨k,honward⟩ := walk_onward hwalk
  refine locate_eq_ok_iff.mpr ⟨⟨trailed_ne_empty husable.named n,?_,?_⟩,?_⟩
  · intro hnul
    rcases mem_trailed hnul with hnul | hnul
    · exact husable.no_nul hnul
    · cases hnul
  · rw [size_trailed]
    exact hn
  · have hblank : (List.replicate n "").all String.isEmpty = true := by simp
    rw [base,isAbsolute_trailed husable.named,pieces_trailed,← base,honward]
    cases k <;> rw [walk,walkTo_blank hblank,locate_node h]

/-- A path that is too long leads to no record. -/
theorem FileTree.reported_long (h : maxPathBytes < path.utf8ByteSize) : t.reported path = [] := by
  rw [reported,records_load]
  cases hread : t.read path with
  | error f => rfl
  | ok bytes =>
    obtain ⟨loc,x,hl⟩ := read_ok_iff.mp hread
    exact absurd (locate_eq_ok_iff.mp hl).1.short (Nat.not_le_of_lt h)

theorem join_trailed (h : path ≠ "") (n : Nat) (hn : '/' ∉ name.toList) :
    join (trailed path (n + 1)) name = trailed path (n + 1) ++ name := by
  have hnamed : (trailed path (n + 1)).isEmpty = false := by
    simpa using trailed_ne_empty h (n + 1)
  rw [join,relative_of_slashless hn,hnamed]
  simp [trailed]

theorem respelled_trailed (h : path ≠ "") (n : Nat) :
    respelled (trailed path n) = respelled path := by
  have hnames : names (trailed path n) = names path := by
    simp [names,pieces_trailed]
  rw [respelled,hnames,isAbsolute_trailed h,← respelled]

end trailed

/-- A session with nothing but a list for the whole project. -/
def wholeTree : FileTree where
  entries := [(["a"],.dir),(["a","api_extraction.json"],.file sampleBytes false)]
  cwd := []

theorem wholeTree_sound : wholeTree.Sound := by
  decide

theorem loadEndpoints_whole (h : Glob.Literal session.toList)
    (hr : respelled (controllerDir session) = "/a/data/API") :
    loadEndpoints wholeTree session =
      .ok (wholeTree.reported (join session "api_extraction.json")) := by
  have hnames : Glob.namesIn wholeTree "/a/data/API" = [] := by decide +kernel
  rw [loadEndpoints_ended wholeTree_sound h,hr,Glob.ended,hnames]
  simp [FileTree.collected]

/-- By a path as long as a path can be, that of the list for the whole project is too long. -/
theorem loadEndpoints_trailed :
    let long := trailed "/a" 4093
    wholeTree.Sound ∧ Glob.Literal long.toList ∧ wholeTree.locate long = .ok (["a"],some .dir) ∧
      wholeTree.isFile "/a/api_extraction.json" = true ∧
      loadEndpoints wholeTree "/a" = .ok [sampleEndpoint] ∧ loadEndpoints wholeTree long = .ok [] := by
  intro long
  have hliteral : Glob.Literal "/a".toList := by decide
  have hlong : Glob.Literal long.toList := literal_trailed hliteral 4093
  refine ⟨wholeTree_sound,hlong,FileTree.locate_trailed rfl (by decide),rfl,?_,?_⟩
  · have hread : (wholeTree.read (join "/a" "api_extraction.json")).toOption = some sampleBytes := rfl
    rw [loadEndpoints_whole hliteral (by decide +kernel),reported,records_load,hread,recordsIn_sample]
  · have hdir : respelled (controllerDir long) = "/a/data/API" := by
      rw [controllerDir,respelled_join _ ⟨by decide,by decide⟩,respelled_join _ ⟨by decide,by decide⟩,
        respelled_trailed (by decide)]
      decide +kernel
    have hsize : (join long "api_extraction.json").utf8ByteSize = 4114 := by
      rw [join_trailed (by decide) 4092 (by decide),String.utf8ByteSize_append,size_trailed]
      rfl
    rw [loadEndpoints_whole hlong hdir,FileTree.reported_long]
    rw [hsize]
    decide

end EndpointAudit
