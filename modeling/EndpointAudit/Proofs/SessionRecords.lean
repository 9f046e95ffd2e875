import EndpointAudit.Proofs.Patterns
import EndpointAudit.Proofs.Readback
import EndpointAudit.Toolchain
import Mathlib.Data.List.Sort

namespace EndpointAudit

open EndpointAudit.Path

/-- What a file holds that goes by names below a directory, if it can be read. -/
def FileTree.content? (t : FileTree) (dir : String) (rel : List String) : Option ByteArray :=
  (t.read (rel.foldl join dir)).toOption

/-- The endpoints in a record file; none if it cannot be read. -/
def recordsIn (content : Option ByteArray) : List Endpoint :=
  ((content.bind String.fromUTF8?).bind fun text => (RecordFile.parse text).toOption).getD []

section toOption

variable {ε ε' α β : Type} (x : Except ε α)

theorem toOption_bind (f : α → Except ε β) :
    (x >>= f).toOption = x.toOption.bind fun a => (f a).toOption := by
  cases x <;> rfl

theorem toOption_mapError (f : ε → ε') : (x.mapError f).toOption = x.toOption := by
  cases x <;> rfl

end toOption

theorem toOption_readText (t : FileTree) (path : String) :
    (t.readText path).toOption = (t.read path).toOption.bind String.fromUTF8? := by
  rw [FileTree.readText,toOption_bind]
  refine congrArg _ (funext fun bytes => ?_)
  cases String.fromUTF8? bytes <;> rfl

theorem records_load (t : FileTree) (path : String) :
    ((RecordFile.load t path).toOption).getD [] = recordsIn (t.read path).toOption := by
  simp only [RecordFile.load,recordsIn,toOption_bind,toOption_mapError,toOption_readText]

theorem records_isFile (t : FileTree) (path : String) :
    ((if t.isFile path then [path] else []).flatMap fun p =>
      ((RecordFile.load t p).toOption).getD []) = recordsIn (t.read path).toOption := by
  cases hf : t.isFile path with
  | true =>
    simp only [↓reduceIte,List.flatMap_cons,List.flatMap_nil,List.append_nil]
    exact records_load t path
  | false =>
    have hread : (t.read path).toOption = none := by
      unfold FileTree.isFile at hf
      unfold FileTree.read
      generalize t.find path = found at hf ⊢
      rcases found with f | ⟨loc,(⟨bytes,x⟩ | _ | _)⟩
      · rfl
      · cases hf
      · rfl
      · rfl
    rw [hread]
    rfl

/-- Where a session has the records of controllers. -/
def controllerDir (session : String) : String :=
  join (join session "data") "API"

/-- A session path that a search takes as it is: it has no characters with a meaning in patterns, and
the paths of its records are not too long. -/
structure Searchable (session : String) : Prop where
  literal : Glob.Literal session.toList
  short : session.utf8ByteSize + 267 ≤ FileTree.maxPathBytes

variable {t t' : FileTree} {session session' : String}

theorem literal_join {dir name : String} (hd : Glob.Literal dir.toList)
    (hn : Glob.Literal name.toList) : Glob.Literal (join dir name).toList := by
  have happend {cs ds : List Char} (hc : Glob.Literal cs) (hd : Glob.Literal ds) :
      Glob.Literal (cs ++ ds) := fun c hm => (List.mem_append.mp hm).elim (hc c) (hd c)
  unfold join
  split
  · exact hn
  split
  · exact hn
  split
  · rw [String.toList_append]
    exact happend hd hn
  · rw [String.toList_append,String.toList_append]
    exact happend (happend hd (by decide)) hn

theorem names_controllerDir (session : String) :
    names (controllerDir session) = names session ++ ["data","API"] := by
  rw [controllerDir,names_join _ ⟨by decide,by decide⟩,names_join _ ⟨by decide,by decide⟩,
    List.append_assoc]
  rfl

theorem size_controllerDir (session : String) :
    (controllerDir session).utf8ByteSize ≤ session.utf8ByteSize + 9 := by
  have hdata : "data".utf8ByteSize = 4 := by decide
  have hapi : "API".utf8ByteSize = 3 := by decide
  have h₁ := size_join session "data"
  have h₂ := size_join (join session "data") "API"
  rw [controllerDir]
  omega

/-- A record is read by the path that a search finds as it is read by its own path. -/
theorem read_found (h : Searchable session) {name : String} (hn : FileTree.EntryName name) :
    t.read (join (respelled (controllerDir session)) name) =
      t.read (join (controllerDir session) name) := by
  have hsize := size_controllerDir session
  have hjoin := size_join (controllerDir session) name
  have hname := hn.short
  have hmax := h.short
  rw [FileTree.maxNameBytes] at hname
  unfold FileTree.read FileTree.find
  rw [← respelled_join _ hn.proper,
    FileTree.locate_respelled (open_join _ hn.proper) (by omega)]

theorem loadEndpoints_eq (ht : t.Sound) (h : Searchable session) :
    loadEndpoints t session = .ok (recordsIn (t.content? session ["api_extraction.json"]) ++
      (Glob.ended t (respelled (controllerDir session)) ".json".toList).flatMap fun n =>
        recordsIn (t.content? session ["data","API",n])) := by
  have hliteral : Glob.Literal (controllerDir session).toList :=
    literal_join (literal_join h.literal (by decide)) (by decide)
  have hnames : names (controllerDir session) ≠ [] := by
    simp [names_controllerDir]
  have hfound := Glob.paths?_json ht hliteral hnames
  have hrecords : ∀ n ∈ Glob.ended t (respelled (controllerDir session)) ".json".toList,
      ((RecordFile.load t (join (respelled (controllerDir session)) n)).toOption).getD [] =
        recordsIn (t.content? session ["data","API",n]) := by
    intro n hn
    rw [records_load,read_found h (Glob.entryName_of_mem_namesIn ht (Glob.mem_ended.mp hn).1)]
    rfl
  unfold loadEndpoints
  simp only [controllerDir] at hfound hrecords ⊢
  simp only [hfound,List.flatMap_append,records_isFile,List.flatMap_map]
  rw [List.flatMap_congr hrecords]
  rfl

/-- A record that can be read is one that the search lists. -/
theorem listed_of_content? (ht : t.Sound) (h : Searchable session) {name : String} (hn : Plain name)
    (hc : (t.content? session ["data","API",name]).isSome) :
    name ∈ Glob.namesIn t (respelled (controllerDir session)) := by
  have hopen : Open (controllerDir session) := open_join _ ⟨by decide,by decide⟩
  obtain ⟨bytes,hread⟩ : ∃ bytes, t.read (join (controllerDir session) name) = .ok bytes := by
    change (t.read (join (controllerDir session) name)).toOption.isSome at hc
    generalize t.read (join (controllerDir session) name) = found at hc ⊢
    cases found with
    | error f => cases hc
    | ok bytes => exact ⟨bytes,rfl⟩
  obtain ⟨loc,x,hl⟩ := FileTree.read_ok_iff.mp hread
  obtain ⟨d,m,hd,hm⟩ := ht.child_found hopen.ne_empty hn hl
  have hsize := size_controllerDir session
  have hmax := h.short
  refine Glob.mem_namesIn.mpr ⟨d,m,?_,FileTree.mem_entries_of_node? (by simp) hm⟩
  rw [FileTree.locate_respelled hopen (by omega),hd]

theorem recordsIn_flatMap_filter (content : String → Option ByteArray) (ns : List String) :
    (ns.filter fun n => (content n).isSome).flatMap (fun n => recordsIn (content n)) =
      ns.flatMap fun n => recordsIn (content n) := by
  induction ns with
  | nil => rfl
  | cons n ns ih =>
    rw [List.filter_cons,List.flatMap_cons,← ih]
    split
    · rw [List.flatMap_cons]
    · rename_i hn
      rw [Option.not_isSome_iff_eq_none.mp hn]
      rfl

/-- What is loaded from a session are the endpoints in its own records that can be read, in the order of
their names. -/
theorem loadEndpoints_readable (ht : t.Sound) (h : Searchable session) :
    ∃ ns : List String, ns.Pairwise (· < ·) ∧
      (∀ n, n ∈ ns ↔ Plain n ∧ ".json".toList <:+ n.toList ∧
        (t.content? session ["data","API",n]).isSome) ∧
      loadEndpoints t session = .ok (recordsIn (t.content? session ["api_extraction.json"]) ++
        ns.flatMap fun n => recordsIn (t.content? session ["data","API",n])) := by
  refine ⟨(Glob.ended t (respelled (controllerDir session)) ".json".toList).filter fun n =>
    (t.content? session ["data","API",n]).isSome,(Glob.ended_sorted ht _ _).filter _,?_,?_⟩
  · intro n
    rw [List.mem_filter,Glob.mem_ended]
    constructor
    · intro ⟨⟨hlisted,hending⟩,hread⟩
      exact ⟨(Glob.entryName_of_mem_namesIn ht hlisted).toPlain,hending,hread⟩
    · intro ⟨hn,hending,hread⟩
      exact ⟨⟨listed_of_content? ht h hn hread,hending⟩,hread⟩
  · rw [loadEndpoints_eq ht h,recordsIn_flatMap_filter]

theorem plain_record {name : String} (hn : Plain name) : ∀ n ∈ ["data","API",name], Plain n := by
  simp only [List.forall_mem_cons]
  exact ⟨by decide,by decide,hn,by simp⟩

/-- Two sessions that hold the same files give the same endpoints, wherever they stand: those of every
record that can be read, and of no other file. -/
theorem loadEndpoints_relocated (ht : t.Sound) (ht' : t'.Sound) (h : Searchable session)
    (h' : Searchable session')
    (hsame : ∀ rel, (∀ n ∈ rel, Plain n) → t.content? session rel = t'.content? session' rel) :
    ∃ ns : List String, ns.Pairwise (· < ·) ∧
      (∀ n, n ∈ ns ↔ Plain n ∧ ".json".toList <:+ n.toList ∧
        (t.content? session ["data","API",n]).isSome) ∧
      loadEndpoints t session = .ok (recordsIn (t.content? session ["api_extraction.json"]) ++
        ns.flatMap fun n => recordsIn (t.content? session ["data","API",n])) ∧
      loadEndpoints t' session' = loadEndpoints t session := by
  have hrecord {n : String} (hn : Plain n) :
      t.content? session ["data","API",n] = t'.content? session' ["data","API",n] :=
    hsame _ (plain_record hn)
  obtain ⟨ns,hs,hm,hl⟩ := loadEndpoints_readable ht h
  obtain ⟨ns',hs',hm',hl'⟩ := loadEndpoints_readable ht' h'
  have hns : ns' = ns := by
    refine hs'.eq_of_mem_iff hs ?_
    intro n
    rw [hm,hm']
    refine and_congr_right fun hn => ?_
    rw [hrecord hn]
  have hflat : ns'.flatMap (fun n => recordsIn (t'.content? session' ["data","API",n])) =
      ns.flatMap fun n => recordsIn (t.content? session ["data","API",n]) := by
    rw [hns]
    refine List.flatMap_congr ?_
    intro n hn
    rw [hrecord ((hm n).mp hn).1]
  refine ⟨ns,hs,hm,hl,?_⟩
  rw [hl,hl',hflat,hsame ["api_extraction.json"] (by decide)]

/-- An endpoint and the file in which an extraction tool reports it. -/
def sampleEndpoint : Endpoint :=
  { controller := "A",handler := "a",position := "A.java:1-2",
    request := { method := "GET",path := "/a" } }

def sampleReport : Json :=
  .array [.object [("code_pos",.text "A.java:1-2"),("controller_name",.text "A"),
    ("method_name",.text "a"),("req",.object [("method",.text "GET"),("path",.text "/a")])]]

def sampleBytes : ByteArray :=
  (Json.serialized false sampleReport).toUTF8

theorem recordsIn_sample : recordsIn (some sampleBytes) = [sampleEndpoint] := by
  have hw : Json.WellFormed Json.Number.Legible Json.maxNesting sampleReport := by
    refine .array (List.forall_mem_singleton.mpr (.object (by decide) ?_))
    simp only [List.forall_mem_cons]
    refine ⟨.text _,.text _,.text _,.object (by decide) ?_,by simp⟩
    simp only [List.forall_mem_cons]
    exact ⟨.text _,.text _,by simp⟩
  have htext : String.fromUTF8? sampleBytes = some (Json.serialized false sampleReport) :=
    dif_pos (String.isValidUTF8 _)
  have hparse : RecordFile.parse (Json.serialized false sampleReport) = .ok [sampleEndpoint] := by
    unfold RecordFile.parse Json.decode
    rw [Json.document_serialized hw.numbered]
    rfl
  rw [recordsIn,Option.bind_some,htext,Option.bind_some,hparse]
  rfl

/-- A tree with one more session, in which one record lies. -/
def FileTree.withSession (t : FileTree) (dir : Location) : FileTree :=
  (((t.put dir .dir).put (dir ++ ["data"]) .dir).put (dir ++ ["data"] ++ ["API"]) .dir).put
    (dir ++ ["data"] ++ ["API"] ++ ["A.json"]) (.file sampleBytes false)

theorem FileTree.Sound.withSession (ht : t.Sound) {dir : Location} {name : String}
    (hdir : t.node? dir = some .dir) (hn : EntryName name)
    (hfree : t.node? (dir ++ [name]) = none) : (t.withSession (dir ++ [name])).Sound := by
  obtain ⟨h₁,hdir₁,hfree₁⟩ := ht.put_dir hdir hn hfree
  obtain ⟨h₂,hdir₂,hfree₂⟩ := h₁.put_dir hdir₁ (by decide) (hfree₁ "data")
  obtain ⟨h₃,hdir₃,hfree₃⟩ := h₂.put_dir hdir₂ (by decide) (hfree₂ "API")
  exact h₃.put hdir₃ (by decide) (hfree₃ "A.json") (.file sampleBytes false)

/-- A tree with a working directory and nothing else. -/
def FileTree.bare : FileTree :=
  { entries := [(["w"],.dir)],cwd := ["w"] }

theorem FileTree.sound_bare : FileTree.bare.Sound := by
  decide

/-- A session at an absolute path. -/
def absoluteTree : FileTree :=
  FileTree.bare.withSession ["a"]

/-- A session in the working directory. -/
def relativeTree : FileTree :=
  FileTree.bare.withSession ["w","b"]

theorem absoluteTree_sound : absoluteTree.Sound :=
  @FileTree.Sound.withSession _ FileTree.sound_bare [] "a" rfl (by decide) rfl

theorem relativeTree_sound : relativeTree.Sound :=
  @FileTree.Sound.withSession _ FileTree.sound_bare ["w"] "b" rfl (by decide) rfl

/-- Where one record is the only file, it is all that can be read below its session. -/
theorem content?_sample {start : Location} (hl : t.Linkless) (hp : Open session)
    (hnames : ∀ n ∈ names session, Plain n)
    (hstart : (if isAbsolute session then [] else t.cwd) ++ names session = start)
    (hfiles : ∀ loc bytes x, (loc,Node.file bytes x) ∈ t.entries →
      loc = start ++ ["data","API","A.json"] ∧ bytes = sampleBytes)
    (hread : t.content? session ["data","API","A.json"] = some sampleBytes) {rel : List String}
    (hrel : ∀ n ∈ rel, Plain n) :
    t.content? session rel = if rel = ["data","API","A.json"] then some sampleBytes else none := by
  split
  · rename_i he
    rw [he,hread]
  · rename_i hne
    refine Option.eq_none_iff_forall_ne_some.mpr ?_
    intro bytes hc
    have hr : t.read (rel.foldl join session) = .ok bytes := by
      unfold FileTree.content? at hc
      generalize t.read (rel.foldl join session) = found at hc ⊢
      cases found with
      | error f => cases hc
      | ok b => rw [Option.some.inj hc]
    obtain ⟨loc,x,hloc⟩ := FileTree.read_ok_iff.mp hr
    have hspot := FileTree.locate_linkless hl hp (List.forall_mem_append.mpr ⟨hnames,hrel⟩) hloc
    rw [← List.append_assoc,hstart] at hspot
    have hne' : loc ≠ [] := by
      intro he
      have hn := FileTree.locate_node hloc
      rw [he] at hn
      cases hn
    have hentry := FileTree.mem_entries_of_node? hne' (FileTree.locate_node hloc).symm
    exact hne (List.append_cancel_left (hspot.symm.trans (hfiles loc bytes x hentry).1))

theorem content?_absoluteTree {rel : List String} (hrel : ∀ n ∈ rel, Plain n) :
    absoluteTree.content? "/a" rel =
      if rel = ["data","API","A.json"] then some sampleBytes else none := by
  have hentries : absoluteTree.entries = [(["w"],.dir),(["a"],.dir),(["a","data"],.dir),
      (["a","data","API"],.dir),(["a","data","API","A.json"],.file sampleBytes false)] := rfl
  have hstart : (if isAbsolute "/a" then [] else absoluteTree.cwd) ++ names "/a" = ["a"] := rfl
  refine content?_sample (FileTree.linkless_of_entries ?_) ⟨[""],"a",by decide,by decide⟩
    (by decide) hstart ?_ rfl hrel
  · simp [hentries]
  · simp [hentries]

theorem content?_relativeTree {rel : List String} (hrel : ∀ n ∈ rel, Plain n) :
    relativeTree.content? "b" rel =
      if rel = ["data","API","A.json"] then some sampleBytes else none := by
  have hentries : relativeTree.entries = [(["w"],.dir),(["w","b"],.dir),(["w","b","data"],.dir),
      (["w","b","data","API"],.dir),(["w","b","data","API","A.json"],.file sampleBytes false)] := rfl
  have hstart : (if isAbsolute "b" then [] else relativeTree.cwd) ++ names "b" = ["w","b"] := rfl
  refine content?_sample (FileTree.linkless_of_entries ?_) ⟨[],"b",by decide,by decide⟩
    (by decide) hstart ?_ rfl hrel
  · simp [hentries]
  · simp [hentries]

theorem loadEndpoints_relocated_sample :
    loadEndpoints absoluteTree "/a" = .ok [sampleEndpoint] ∧
      loadEndpoints relativeTree "b" = .ok [sampleEndpoint] := by
  have ha : Searchable "/a" := ⟨by decide,by decide⟩
  have hb : Searchable "b" := ⟨by decide,by decide⟩
  obtain ⟨ns,hs,hm,hl,hsame⟩ := loadEndpoints_relocated absoluteTree_sound relativeTree_sound ha hb
    fun rel hrel => by rw [content?_absoluteTree hrel,content?_relativeTree hrel]
  have hns : ns = ["A.json"] := by
    refine hs.eq_of_mem_iff (List.pairwise_singleton _ _) ?_
    intro n
    rw [hm,List.mem_singleton]
    constructor
    · intro ⟨hn,_,hread⟩
      rw [content?_absoluteTree (plain_record hn)] at hread
      split at hread
      · rename_i he
        simpa using he
      · cases hread
    · intro he
      rw [he]
      exact ⟨by decide,by decide,rfl⟩
  have hload : loadEndpoints absoluteTree "/a" = .ok [sampleEndpoint] := by
    rw [hl,hns,List.flatMap_singleton,content?_absoluteTree (by decide),
      content?_absoluteTree (by decide),if_neg (by decide),if_pos rfl,recordsIn_sample]
    rfl
  exact ⟨hload,hsame.trans hload⟩

/-- The same session twice, once under a name with brackets. -/
def bracketTree : FileTree :=
  absoluteTree.withSession ["s[1]"]

theorem bracketTree_sound : bracketTree.Sound :=
  @FileTree.Sound.withSession _ absoluteTree_sound [] "s[1]" rfl (by decide) rfl

theorem paths?_bracketTree : Glob.paths? bracketTree "/s[1]/data/API/*.json" = some [] := by
  have hpatterns : Glob.patterns? "/s[1]/data/API/*.json" =
      some (.tokens [.char 's',.within [⟨'1','1'⟩]] ::
        (["data","API"].map Glob.nameOnly ++ [.tokens (Glob.endingTokens ".json".toList)])) := by
    decide +kernel
  have hliteral : Glob.literal? [.char 's',.within [⟨'1','1'⟩]] = none := rfl
  have hroot : Glob.namesIn bracketTree "/" = ["w","a","s[1]"] := by decide +kernel
  have hdots : Glob.dotNames [.char 's',.within [⟨'1','1'⟩]] = [] := rfl
  have hempty : ∀ rest, Glob.expand bracketTree "/" (.tokens [.char 's',.within [⟨'1','1'⟩]] :: rest)
      = [] := by
    intro rest
    rw [Glob.expand,hliteral]
    simp only [hroot,hdots,ite_self,List.append_nil]
    simp [Glob.matchesTokens,Glob.CharRange.holds]
  rw [Glob.paths?,hpatterns,Option.map_some]
  change some ((Glob.expand bracketTree "/" _).mergeSort before) = _
  rw [hempty,List.mergeSort_nil]

/-- Brackets in the name of a session are taken for a set of characters, so its
records are not found. -/
theorem loadEndpoints_bracketTree :
    bracketTree.content? "/s[1]" ["data","API","A.json"] = some sampleBytes ∧
      bracketTree.content? "/a" ["data","API","A.json"] = some sampleBytes ∧
      loadEndpoints bracketTree "/s[1]" = .ok [] ∧
      loadEndpoints bracketTree "/a" = .ok [sampleEndpoint] := by
  have hrecord : bracketTree.content? "/a" ["data","API","A.json"] = some sampleBytes := rfl
  have hwhole : bracketTree.content? "/a" ["api_extraction.json"] = none := rfl
  refine ⟨rfl,hrecord,?_,?_⟩
  · have hpaths : Glob.paths? bracketTree (join (join (join "/s[1]" "data") "API") "*.json") =
        some [] := paths?_bracketTree
    simp only [loadEndpoints,hpaths]
    rfl
  · have hnames : Glob.namesIn bracketTree (respelled (controllerDir "/a")) = ["A.json"] := by
      decide +kernel
    have hended : Glob.ended bracketTree (respelled (controllerDir "/a")) ".json".toList =
        ["A.json"] := by
      refine (Glob.ended_sorted bracketTree_sound _ _).eq_of_mem_iff (List.pairwise_singleton _ _) ?_
      intro n
      rw [Glob.mem_ended,hnames]
      refine and_iff_left_of_imp fun hn => ?_
      obtain rfl := List.mem_singleton.mp hn
      decide
    rw [loadEndpoints_eq bracketTree_sound ⟨by decide,by decide⟩,hended,List.flatMap_singleton,
      hwhole,hrecord,recordsIn_sample]
    rfl

end EndpointAudit
