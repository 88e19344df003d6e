import PageProbe.Page.Load
import PageProbe.Proofs.Injection.Preview
import PageProbe.Proofs.Injection.Serving
import PageProbe.Proofs.Page.Links

/-!
The name of a script is found twice: in the path of a function, where it is the name of the file, and in
the address of a response, of which it is what remains without a query and a fragment. A page is served
under the names of its files. So a function gets its harness when the name of its file is its own address,
and when there is anything to be served at all.
-/

namespace PageProbe

open Text (Bytes)

namespace LoadedPage

/-- What any loaded page is like: its scripts have names of their own, and behind a document, if there is
    one, they are its resources. -/
structure Tidy (page : LoadedPage) : Prop where
  names : (page.scripts.map (·.name)).Nodup
  resources : ∃ document : List PageResource,
    (∀ r ∈ document, ContentType.isScript r.contentType = false) ∧
      page.resources = document ++ page.scripts.map resourceOf

variable {files : FileAccess Id} {settings : Settings}

theorem loadScripts_names {loaded scripts : List ScriptSource} {paths : List String}
    (hloaded : (loaded.map (·.name)).Nodup) (h : loadScripts files loaded paths = Except.ok scripts) :
    (scripts.map (·.name)).Nodup := by
  induction paths generalizing loaded with
  | nil =>
    cases h
    exact hloaded
  | cons path rest ih =>
    simp only [loadScripts, bind, pure] at h
    split at h
    · cases h
    · split at h
      · exact ih hloaded h
      · next hnew =>
        refine ih ?_ h
        rw [List.map_append, List.nodup_append]
        refine ⟨hloaded, List.nodup_singleton _, fun name hname other hother heq => hnew ?_⟩
        obtain ⟨s, hs, rfl⟩ := List.mem_map.mp hname
        obtain rfl := List.mem_singleton.mp hother
        exact List.any_eq_true.mpr ⟨s, hs, beq_iff_eq.mpr heq⟩

theorem finish_tidy {path : String} {document : List PageResource} {paths : List String}
    {page : LoadedPage} (hdocument : ∀ r ∈ document, ContentType.isScript r.contentType = false)
    (h : finish files path document paths = Except.ok page) : page.Tidy := by
  simp only [finish, bind, pure] at h
  cases hscripts : loadScripts files [] paths with
  | error e =>
    rw [hscripts] at h
    cases h
  | ok scripts =>
    rw [hscripts] at h
    cases h
    exact ⟨loadScripts_names (show ([].map ScriptSource.name).Nodup from List.nodup_nil) hscripts, document, hdocument, rfl⟩

/-- Whatever there is in the files. -/
theorem load_tidy {path : String} {page : LoadedPage} (h : load files settings path = Except.ok page) :
    page.Tidy := by
  have hhtml : ContentType.isScript "text/html" = false := by decide
  simp only [load, bind, pure] at h
  split at h
  · split at h
    · cases h
    · refine finish_tidy (fun r hr => ?_) h
      rw [List.mem_singleton.mp hr]
      exact hhtml
  · split at h
    · cases h
    · exact finish_tidy (fun _ hr => absurd hr List.not_mem_nil) h

end LoadedPage

namespace FunctionTree

/-- When scripts of different names have been analysed one after another, the root of a script is still as
    the analysis of its script has left it. -/
theorem withScripts_scriptRoot? {page : String} {turns : List (ScriptSource × Bool)}
    (hnames : (turns.map (·.1.name)).Nodup) {file : String} {root : Leaf}
    (h : ((empty page).withScripts turns).scriptRoot? file = some root) :
    ∃ earlier turn tree report, turn ∈ turns ∧ turn.1.name = file ∧
      ((empty page).withScripts earlier).analyse turn.1 turn.2 = .ok (tree, report) ∧
      tree.scriptRoot? turn.1.name = some root := by
  have hmem := List.mem_of_find?_eq_some h
  have hpath : root.path = Path.ofScript file :=
    eq_of_beq (List.find?_some (p := fun c : Leaf => c.path == Path.ofScript file) h)
  obtain ⟨earlier, turn, later, hturns, hroot, hthen, -⟩ := withScripts_resolved page turns root hmem
  have hfile : turn.1.name = file := Path.ofScript_inj.mp (hroot.symm.trans hpath)
  have hsplit : turns = (earlier ++ [turn]) ++ later := by rw [hturns, List.append_cons]
  -- the roots of that time are the first of all roots
  have hstill : ((empty page).withScripts (earlier ++ [turn])).scriptRoot? turn.1.name = some root := by
    obtain ⟨new, hnew⟩ := withScripts_prefix page (hsplit ▸ hnames)
    rw [hsplit, ← hfile, scriptRoot?, ← hnew, List.find?_append] at h
    cases hfirst : ((empty page).withScripts (earlier ++ [turn])).scriptRoot? turn.1.name with
    | none =>
      have hother := List.find?_eq_none.mp hfirst root hthen
      rw [hroot] at hother
      exact absurd (beq_self_eq_true _) hother
    | some first =>
      rw [scriptRoot?] at hfirst
      rwa [hfirst, Option.some_or] at h
  rw [withScripts_concat] at hthen hstill
  cases hok : ((empty page).withScripts earlier).analyse turn.1 turn.2 with
  | ok analysed =>
    have hleft : ((empty page).withScripts earlier).withScript turn = analysed.1 := by
      delta withScript
      rw [hok]
    refine ⟨earlier, turn, analysed.1, analysed.2, ?_, hfile, hok, hleft ▸ hstill⟩
    rw [hturns]
    exact List.mem_append_right _ List.mem_cons_self
  | error e =>
    -- the root would be that of an earlier script of the same name
    have hleft : ((empty page).withScripts earlier).withScript turn = (empty page).withScripts earlier := by
      delta withScript
      rw [hok]
    rw [hleft] at hthen
    obtain ⟨_, turn', _, hearlier, hroot', -⟩ := withScripts_resolved page earlier root hthen
    have hsame : turn'.1.name = turn.1.name := Path.ofScript_inj.mp (hroot'.symm.trans hroot)
    have htwice : turn'.1.name ∈ earlier.map (·.1.name) := by
      rw [hearlier]
      exact List.mem_map_of_mem (List.mem_append_right _ List.mem_cons_self)
    rw [hturns, List.map_append, List.nodup_append] at hnames
    exact absurd hsame (hnames.2.2 _ htwice _ List.mem_cons_self)

end FunctionTree

/-- What an address leads to has no query and no fragment in its name. -/
theorem ne_of_mem_scriptName {uri : String} {c : Char} (hc : c ∈ (scriptName uri).toList) :
    c ≠ '?' ∧ c ≠ '#' := by
  rw [scriptName, String.toList_ofList, Text.lastPiece, List.mem_reverse] at hc
  have hc := List.mem_reverse.mp ((List.takeWhile_sublist _).subset hc)
  have hkept := List.all_eq_true.mp List.all_takeWhile c hc
  simpa using hkept

theorem Leaf.scriptName_plain (leaf : Leaf) : '/' ∉ leaf.scriptName.toList := by
  rw [Leaf.scriptName, Path.first, String.toList_ofList]
  cases hpieces : Path.split (leaf.path.toList.dropWhile (· == '/')) with
  | nil => exact List.not_mem_nil
  | cons piece pieces =>
    intro hslash
    have hpiece : piece ∈ Path.split (leaf.path.toList.dropWhile (· == '/')) := by
      rw [hpieces]
      exact List.mem_cons_self
    simpa using Text.stop_of_mem_split hpiece '/' hslash

namespace ScriptSource

/-- The name of the script has nothing in it by which an address would be cut. -/
def NamePlain (s : ScriptSource) : Prop := ∀ c ∈ s.name.toList, c ≠ '/' ∧ c ≠ '?' ∧ c ≠ '#'

/-- A plain name is the name that its own address leads to. -/
theorem NamePlain.scriptName_eq {s : ScriptSource} (h : s.NamePlain) : scriptName s.name = s.name := by
  have hwhole : Text.upTo (fun c => c == '?' || c == '#') s.name.toList = s.name.toList := by
    rw [Text.upTo, List.takeWhile_eq_self_iff]
    intro c hc
    simp [(h c hc).2.1, (h c hc).2.2]
  have hlast : Text.lastPiece (· == '/') s.name.toList = s.name.toList := by
    have hall : s.name.toList.reverse.takeWhile (fun c => !(c == '/')) = s.name.toList.reverse := by
      rw [List.takeWhile_eq_self_iff]
      intro c hc
      simp [(h c (List.mem_reverse.mp hc)).1]
    rw [Text.lastPiece, hall, List.reverse_reverse]
  rw [scriptName, hwhole, hlast, String.ofList_toList]

/-- No address at all leads to a name that is not plain, unless it is one with a slash. -/
theorem namePlain_of_scriptName_eq {s : ScriptSource} {uri : String} (hslash : '/' ∉ s.name.toList)
    (h : scriptName uri = s.name) : s.NamePlain := by
  intro c hc
  refine ⟨?_, ne_of_mem_scriptName (h ▸ hc)⟩
  rintro rfl
  exact hslash hc

end ScriptSource

namespace LoadedPage

/-- Every function of a loaded page is one of a script of the page, in which its injection point lies. -/
theorem find?_analyse {page : LoadedPage} (htidy : page.Tidy) {settings : Settings} {path : String}
    {leaf : Leaf} (hleaf : (page.analyse settings).tree.find? path = some leaf) :
    ∃ s ∈ page.scripts, leaf.scriptName = s.name ∧
      leaf.injectionPoint ≤ (Text.encode s.source).length := by
  rw [analyse, PageAnalysis.populate_all_tree] at hleaf
  obtain ⟨root, -, hroot, hmem, hpath⟩ := FunctionTree.find?_eq_some hleaf
  have hnames : ((page.scripts.map (·, settings.withAnonymous)).map (·.1.name)).Nodup := by
    rw [List.map_map]
    exact htidy.names
  obtain ⟨earlier, turn, tree, report, hturn, hfile, hok, hthen⟩ :=
    FunctionTree.withScripts_scriptRoot? hnames hroot
  obtain ⟨s, hs, rfl⟩ := List.mem_map.mp hturn
  refine ⟨s, hs, by rw [Leaf.scriptName, hpath, hfile], ?_⟩
  have hboundary : Text.Boundary s.source.toList leaf.injectionPoint :=
    FunctionTree.analyse_injectionPoint (fun program hparse n hn => (Script.parse?_boundary hparse hn).2)
      ⟨s.source.toList, [], (List.append_nil _).symm, rfl⟩ hok hthen hmem
  exact hboundary.le_length

/-- Of a loaded page the target's script can only be served by a script of its name. -/
theorem Tidy.liesIn_iff {page : LoadedPage} (h : page.Tidy) (target : InjectionTarget)
    (r : PageResource) :
    r ∈ page.resources ∧ target.LiesIn r ↔
      ∃ s ∈ page.scripts, r = resourceOf s ∧ scriptName s.name = target.script ∧ s.source ≠ "" ∧
        target.point ≤ (Text.encode s.source).length := by
  obtain ⟨document, hdocument, hresources⟩ := h.resources
  have hkind : ContentType.isScript ContentType.script = true := by decide
  have hempty (s : ScriptSource) : Text.encode s.source ≠ [] ↔ s.source ≠ "" :=
    not_congr (Text.encode_inj (t := ""))
  constructor
  · rintro ⟨hr, hscript, hname, hbody, hpoint⟩
    rw [hresources, List.mem_append] at hr
    rcases hr with hr | hr
    · rw [hdocument r hr] at hscript
      cases hscript
    · obtain ⟨s, hs, rfl⟩ := List.mem_map.mp hr
      exact ⟨s, hs, rfl, hname, (hempty s).mp hbody, hpoint⟩
  · rintro ⟨s, hs, rfl, hname, hsource, hpoint⟩
    refine ⟨?_, hkind, hname, (hempty s).mpr hsource, hpoint⟩
    rw [hresources]
    exact List.mem_append_right _ (List.mem_map_of_mem hs)

/-- A tuple has come to a page: it is not in the queue any more, and its harness is in the body of one of
    the page's scripts. -/
def Delivered (page : LoadedPage) (script : ScriptSource) (harness : Harness) (t : Tuple)
    (served : Injector × List Bytes) : Prop :=
  served.1.queue = [] ∧ served.1.active = false ∧
    ∃ body, (resourceOf script, body) ∈ page.resources.zip served.2 ∧
      Text.encode (harness.render t) <:+: body

end LoadedPage

/-- What is chosen is a function of the tree, and what is known of it. -/
theorem Injector.select_eq_ok {before i : Injector} {tree : FunctionTree} {path : String}
    {dependencyArgs : List (List String)} (h : before.select tree path dependencyArgs = .ok i) :
    ∃ leaf target, tree.find? path = some leaf ∧ i = ⟨false, [], some target, []⟩ ∧
      Harness.ofLeaf leaf = .ok target.harness ∧ target.script = leaf.scriptName ∧
      target.point = leaf.injectionPoint ∧
      target.dependencies = (tree.dependencies leaf).zipIdx.map fun (d, n) =>
        ⟨d.name, d.injectionPoint, (dependencyArgs[n]?).getD []⟩ := by
  rw [select] at h
  cases htarget : InjectionTarget.ofPath tree path dependencyArgs with
  | error e =>
    rw [htarget] at h
    cases h
  | ok target =>
    rw [htarget] at h
    cases h
    cases hleaf : tree.find? path with
    | none =>
      simp only [InjectionTarget.ofPath, hleaf] at htarget
      cases htarget
    | some leaf =>
      exact ⟨leaf, target, rfl, rfl, InjectionTarget.ofPath_eq_ok hleaf htarget⟩

namespace LoadedPage

/-- A loaded page is served to a context that fetches all of it, in pieces of any size, with one tuple
    waiting for some function that could be chosen. The tuple is taken, and its harness is in the body of
    the script, if no name of a script has a `?` or a `#` in it and the script is not empty. If other names
    have, the tuple is still taken, though maybe by one of their scripts. A script whose own name has one
    is served under an address that is not taken for its name, and an empty script is not served at all:
    then the tuple stays, and the whole page passes as it is. Nothing is assumed of the files, of the
    scripts or of what was done with the injector before. -/
theorem served_target {files : FileAccess Id} {settings : Settings} {location : String}
    {page : LoadedPage} (hload : load files settings location = Except.ok page) {before i : Injector}
    {path : String} {dependencyArgs : List (List String)}
    (hselect : before.select (page.analyse settings).tree path dependencyArgs = .ok i) (t : Tuple)
    (size : Nat) :
    let armed := (i.load [t]).activate
    let served := (Fetching.fetchBodies size [] page.resources .done).run armed
    ∃ leaf harness s, (page.analyse settings).tree.find? path = some leaf ∧
      Harness.ofLeaf leaf = .ok harness ∧ s ∈ page.scripts ∧ leaf.scriptName = s.name ∧
      (s.NamePlain → s.source ≠ "" → ∃ s' ∈ page.scripts, scriptName s'.name = s.name ∧
        page.Delivered s' harness t served ∧ ((∀ s'' ∈ page.scripts, s''.NamePlain) → s' = s)) ∧
      (¬ s.NamePlain → served = (armed, page.resources.map (·.body))) ∧
      (s.source = "" → (∀ s'' ∈ page.scripts, s''.NamePlain) →
        served = (armed, page.resources.map (·.body))) := by
  intro armed served
  have htidy := load_tidy hload
  obtain ⟨leaf, target, hleaf, rfl, hharness, hscript, hpoint, -⟩ := Injector.select_eq_ok hselect
  obtain ⟨s, hs, hname, hinside⟩ := find?_analyse htidy hleaf
  have hslash : '/' ∉ s.name.toList := hname ▸ leaf.scriptName_plain
  have hwaits : armed.Waits target t := ⟨rfl, rfl, rfl, rfl⟩
  have hserved : served = armed.serve size page.resources := Fetching.run_fetchBodies size [] _ _ armed
  rw [hname] at hscript
  -- with plain names, only the script itself can be taken for the target's
  have hown (hplain : ∀ s'' ∈ page.scripts, s''.NamePlain) {s' : ScriptSource} (hs' : s' ∈ page.scripts)
      (hsame : scriptName s'.name = s.name) : s' = s := by
    rw [(hplain s' hs').scriptName_eq] at hsame
    exact List.inj_on_of_nodup_map htidy.names hs' hs hsame
  have hmissed (hnone : ∀ s' ∈ page.scripts, scriptName s'.name = s.name → s'.source = "") :
      served = (armed, page.resources.map (·.body)) := by
    rw [hserved]
    refine hwaits.serve_of_not_liesIn (fun r hr hlies => ?_) size
    obtain ⟨s', hs', -, hsame, hsource, -⟩ := (htidy.liesIn_iff target r).mp ⟨hr, hlies⟩
    exact hsource (hnone s' hs' (hsame.trans hscript))
  refine ⟨leaf, target.harness, s, hleaf, hharness, hs, hname, fun hplain hsource => ?_, fun hcut => ?_,
    fun hempty hplain => ?_⟩
  · have hlies : resourceOf s ∈ page.resources ∧ target.LiesIn (resourceOf s) :=
      (htidy.liesIn_iff target _).mpr
        ⟨s, hs, rfl, hplain.scriptName_eq.trans hscript.symm, hsource, hpoint ▸ hinside⟩
    obtain ⟨hqueue, hdone, r, body, hbody, htaken, hspliced⟩ :=
      hwaits.serve_of_liesIn ⟨_, hlies⟩ size
    obtain ⟨s', hs', rfl, hsame, -⟩ :=
      (htidy.liesIn_iff target r).mp ⟨(List.of_mem_zip hbody).1, htaken⟩
    rw [hscript] at hsame
    refine ⟨s', hs', hsame, ?_, fun hall => hown hall hs' hsame⟩
    rw [hserved]
    exact ⟨hqueue, hdone, body, hbody, hspliced⟩
  · refine hmissed fun s' _ hsame => ?_
    exact absurd (ScriptSource.namePlain_of_scriptName_eq hslash hsame) hcut
  · refine hmissed fun s' hs' hsame => ?_
    rw [hown hplain hs' hsame]
    exact hempty

end LoadedPage

namespace Sample

/-- Files of which there is only one. -/
def only (path source : String) : FileAccess Id where
  kind? other := if other = path then some .file else none
  read other := if other = path then .ok (Text.encode source) else .error .missing
  walk _ _ := .ok []

def settings : Settings where
  includes := none
  excludes := []
  batchSize := 1
  tupleTimeout := 100
  brain := "brain"
  detector := "detector"
  chunkSize := 1
  seed := 0
  withAnonymous := false
  runner := none
  source := none

/-- The page of a script in the directory that is loaded from. -/
def pageOf (s : ScriptSource) : LoadedPage := ⟨s.name, [s], [LoadedPage.resourceOf s]⟩

theorem load_only {s : ScriptSource} (hname : Location.fileName? s.name = some s.name)
    (hscript : LoadedPage.isScriptName s.name = true) (hhtml : LoadedPage.isDocumentName s.name = false) :
    LoadedPage.load (only s.name s.source) settings s.name = Except.ok (pageOf s) := by
  have hkind : (only s.name s.source).kind? s.name = some .file := if_pos rfl
  have hread : (only s.name s.source).read s.name = Except.ok (Text.encode s.source) := if_pos rfl
  have hcollect : LoadedPage.collect (only s.name s.source) settings s.name = Except.ok [s.name] := by
    simp only [LoadedPage.collect, hkind, hname, bind, pure, Option.any_some, hscript, if_true]
  have htext : (only s.name s.source).readText s.name = Except.ok s.source := by
    simp only [FileAccess.readText, hread, Text.decode?_encode, bind, pure]
  have hloaded : LoadedPage.loadScripts (only s.name s.source) [] [s.name] = Except.ok [s] := by
    simp only [LoadedPage.loadScripts, htext, hname, bind, pure]
    rfl
  simp only [LoadedPage.load, hname, hcollect, bind, pure, Option.any_some, hhtml, Bool.and_false,
    Bool.false_eq_true, if_false, LoadedPage.finish, hloaded]
  rfl

/-- A script of one function, under some name. -/
def scriptF (name : String) : ScriptSource := ⟨name, "function f()\x7b\x7d"⟩

/-- A script that is served in such a way that a function which can be chosen never gets its harness. -/
def Missed (s : ScriptSource) (path : String) : Prop :=
  ∃ i, LoadedPage.load (only s.name s.source) settings s.name = Except.ok (pageOf s) ∧
    Injector.empty.select ((pageOf s).analyse settings).tree path [] = .ok i ∧
    ∀ (t : Tuple) (size : Nat),
      ((Fetching.fetchBodies size [] (pageOf s).resources .done).run (i.load [t]).activate).1.queue = [t]

/-- Whether a function of the script can be chosen. -/
def offers (s : ScriptSource) (path : String) : Bool :=
  (Injector.empty.select ((pageOf s).analyse settings).tree path []).toOption.isSome

theorem exists_of_offers {s : ScriptSource} {path : String} (h : offers s path = true) :
    ∃ i, Injector.empty.select ((pageOf s).analyse settings).tree path [] = .ok i := by
  rw [offers] at h
  cases hselect : Injector.empty.select ((pageOf s).analyse settings).tree path [] with
  | error e =>
    rw [hselect] at h
    cases h
  | ok i => exact ⟨i, rfl⟩

theorem missed_of {s : ScriptSource} {path : String}
    (hload : LoadedPage.load (only s.name s.source) settings s.name = Except.ok (pageOf s))
    (hoffers : offers s path = true) (hcut : scriptName s.name ≠ Path.first path ∨ s.source = "") :
    Missed s path := by
  obtain ⟨i, hselect⟩ := exists_of_offers hoffers
  refine ⟨i, hload, hselect, fun t size => ?_⟩
  obtain ⟨leaf, target, hleaf, rfl, -, hscript, -⟩ := Injector.select_eq_ok hselect
  obtain ⟨_, _, _, _, hpath⟩ := FunctionTree.find?_eq_some hleaf
  have hwaits : ((Injector.load ⟨false, [], some target, []⟩ [t]).activate).Waits target t :=
    ⟨rfl, rfl, rfl, rfl⟩
  rw [Fetching.run_fetchBodies, hwaits.serve_of_not_liesIn fun r hr hlies => ?_]
  · rfl
  · obtain rfl : r = LoadedPage.resourceOf s := List.mem_singleton.mp hr
    rcases hcut with hname | hempty
    · exact hname (hlies.2.1.trans (by rw [hscript, Leaf.scriptName, hpath]))
    · exact hlies.2.2.1 (by rw [LoadedPage.resourceOf, hempty]; rfl)

end Sample

namespace LoadedPage

/-- A name that is cut in its address, and a script without anything in it. -/
theorem served_target_missed :
    Sample.Missed (Sample.scriptF "a#b.js") "/a#b.js/f" ∧ Sample.Missed ⟨"a.js", ""⟩ "/a.js" :=
  ⟨Sample.missed_of (Sample.load_only (by decide) (by decide) (by decide)) (by decide +kernel)
      (.inl (by decide)),
    Sample.missed_of (Sample.load_only (by decide) (by decide) (by decide)) (by decide +kernel) (.inr rfl)⟩

/-- A script with a plain name comes with the harness, also byte by byte. -/
theorem served_target_plain :
    ∃ i harness, Injector.empty.select ((Sample.pageOf (Sample.scriptF "a.js")).analyse
        Sample.settings).tree "/a.js/f" [] = .ok i ∧
      (Sample.pageOf (Sample.scriptF "a.js")).Delivered (Sample.scriptF "a.js") harness ⟨"u", none⟩
        ((Fetching.fetchBodies 1 [] (Sample.pageOf (Sample.scriptF "a.js")).resources .done).run
          (i.load [⟨"u", none⟩]).activate) := by
  have hload := Sample.load_only (s := Sample.scriptF "a.js") (by decide) (by decide) (by decide)
  have hplain : ∀ s ∈ (Sample.pageOf (Sample.scriptF "a.js")).scripts, s.NamePlain := by
    intro s hs
    obtain rfl : s = Sample.scriptF "a.js" := List.mem_singleton.mp hs
    simp [ScriptSource.NamePlain, Sample.scriptF]
  have hoffers : Sample.offers (Sample.scriptF "a.js") "/a.js/f" = true := by decide +kernel
  obtain ⟨i, hselect⟩ := Sample.exists_of_offers hoffers
  obtain ⟨leaf, harness, s, _, _, hs, _, hdelivered, _⟩ := served_target hload hselect ⟨"u", none⟩ 1
  obtain rfl : s = Sample.scriptF "a.js" := List.mem_singleton.mp hs
  obtain ⟨s', _, _, hthere, hown⟩ := hdelivered (hplain _ hs) (by decide)
  obtain rfl := hown hplain
  exact ⟨i, harness, hselect, hthere⟩

end LoadedPage
end PageProbe
