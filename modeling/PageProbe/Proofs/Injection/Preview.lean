import PageProbe.Proofs.Injection.Streaming
import PageProbe.Proofs.Script.Parsing.Statements
import PageProbe.Proofs.Text.Encoding
import PageProbe.Proofs.Tree.Lookup

namespace PageProbe

open Text (Bytes)
open Insertion

namespace Text

/-- The byte of a semicolon is a character of its own. -/
theorem utf8EncodeChar_semicolon {c : Char} {bs : Bytes} (h : String.utf8EncodeChar c = 0x3B :: bs) :
    bs = [] := by
  have hmem : 0x3B ∈ String.utf8EncodeChar c := by
    rw [h]
    exact List.mem_cons_self
  rw [(utf8EncodeChar_of_mem hmem (by decide)).2] at h
  exact (List.cons.inj h).2.symm

theorem encode_inj {s t : String} : encode s = encode t ↔ s = t := by
  refine ⟨fun h => ?_, congrArg encode⟩
  rw [← decodeLossy_encode s, h, decodeLossy_encode]

end Text

/-- The harness of a function of the script itself starts with an assignment to a member of `window`,
    whatever the tuple. -/
theorem Harness.exists_render_eq {h : Harness} (htop : h.isTopLevel = true) (t : Tuple) :
    ∃ more : List Char, (h.render t).toList = "\n window.".toList ++ more := by
  have hfirst (sep first : List Char) (lines : List (List Char)) :
      ∃ more, sep.intercalate (first :: lines) = first ++ more := by
    cases lines with
    | nil => exact ⟨[], by simp⟩
    | cons next lines => exact ⟨_, by rw [List.intercalate_cons_cons, List.append_assoc]⟩
  rw [render, lines, if_pos htop, List.cons_append, String.toList_append, String.toList_append,
    String.toList_intercalate, List.map_cons]
  obtain ⟨more, hmore⟩ := hfirst " \n ".toList " window.onload = function()\x7b".toList _
  rw [hmore]
  exact ⟨"onload = function()\x7b".toList ++ more ++ "\n".toList, rfl⟩

namespace Insertion

theorem exists_textsAt_eq (xs : List Insertion) (point : Nat) :
    ∃ cs : List Char, textsAt xs point = cs.flatMap String.utf8EncodeChar := by
  refine ⟨(xs.filter fun x => x.point = point).flatMap fun x => x.text.toList, ?_⟩
  rw [textsAt, List.flatMap_assoc]
  rfl

/-- A pass without texts for the places inside of a body, or at its end, leaves it as it is. -/
theorem weaveFrom_eq_self {xs : List Insertion} {offset : Nat} {body : Bytes}
    (h : ∀ x ∈ xs, x.point < offset ∨ offset + body.length < x.point) :
    weaveFrom xs offset body = body := by
  refine (weaveFrom_congr fun point hlow hhigh => ?_).trans (weaveFrom_nil offset body)
  apply textsAt_eq_nil
  intro x hx heq
  have := h x hx
  omega

/-- A pass over a character. Texts for it stand on one of its sides, and no texts are for the places
    between its bytes. -/
theorem exists_weaveFrom_char_eq (xs : List Insertion) (offset : Nat) (c : Char)
    (h : ∀ x ∈ xs, offset ≤ x.point → x.point < offset + c.utf8Size → x.point = offset) :
    ∃ cs : List Char,
      weaveFrom (xs.filter fun x => x.point < offset + c.utf8Size) offset (String.utf8EncodeChar c) =
        cs.flatMap String.utf8EncodeChar := by
  obtain ⟨texts, htexts⟩ := exists_textsAt_eq (xs.filter fun x => x.point < offset + c.utf8Size) offset
  have hlength := String.length_utf8EncodeChar c
  cases hbytes : String.utf8EncodeChar c with
  | nil => exact ⟨texts, htexts⟩
  | cons b bs =>
    rw [hbytes, List.length_cons] at hlength
    have hrest : weaveFrom (xs.filter fun x => x.point < offset + c.utf8Size) (offset + 1) bs = bs := by
      apply weaveFrom_eq_self
      intro x hx
      obtain ⟨hx, hbefore⟩ := List.mem_filter.mp hx
      rw [decide_eq_true_eq] at hbefore
      by_cases hlow : offset ≤ x.point
      · have := h x hx hlow hbefore
        omega
      · omega
    rw [weaveFrom, hrest, htexts]
    split
    · next hb =>
      rw [hb] at hbytes
      refine ⟨c :: texts, ?_⟩
      rw [List.flatMap_cons, hbytes, Text.utf8EncodeChar_semicolon hbytes, hb, List.append_nil]
      rfl
    · refine ⟨texts ++ [c], ?_⟩
      rw [List.flatMap_append, List.flatMap_singleton, hbytes, List.append_assoc]
      rfl

/-- A pass that puts texts between characters only writes characters. -/
theorem exists_weaveFrom_eq (xs : List Insertion) (offset : Nat) (cs : List Char)
    (h : ∀ x ∈ xs, offset ≤ x.point → x.point ≤ offset + Text.width cs →
      Text.Boundary cs (x.point - offset)) :
    ∃ out : List Char, weaveFrom xs offset (cs.flatMap String.utf8EncodeChar) =
      out.flatMap String.utf8EncodeChar := by
  induction cs generalizing offset with
  | nil => exact exists_textsAt_eq xs offset
  | cons c cs ih =>
    have hpast (x : Insertion) (hx : x ∈ xs) (hlow : offset < x.point)
        (hhigh : x.point ≤ offset + Text.width (c :: cs)) :
        c.utf8Size ≤ x.point - offset ∧ Text.Boundary cs (x.point - offset - c.utf8Size) :=
      (h x hx (by omega) hhigh).of_cons (by omega)
    have hsize := Char.utf8Size_pos c
    obtain ⟨front, hfront⟩ := exists_weaveFrom_char_eq xs offset c fun x hx hlow hhigh => by
      by_cases hlt : offset < x.point
      · have := (hpast x hx hlt (by rw [Text.width_cons]; omega)).1
        omega
      · omega
    obtain ⟨back, hback⟩ := ih (offset + c.utf8Size) fun x hx hlow hhigh => by
      have := (hpast x hx (by omega) (by rw [Text.width_cons]; omega)).2
      rwa [Nat.sub_sub] at this
    refine ⟨front ++ back, ?_⟩
    rw [List.flatMap_cons, weaveFrom_append, String.length_utf8EncodeChar, hfront, hback,
      List.flatMap_append]

/-- One text in front of anything but a semicolon stands where it is put. -/
theorem weave_single (text : String) (front : Bytes) {back : Bytes} (hback : back.head? ≠ some 0x3B) :
    weave [⟨front.length, text⟩] (front ++ back) = front ++ Text.encode text ++ back := by
  have hhere : textsAt [⟨front.length, text⟩] front.length = Text.encode text := by
    rw [textsAt_cons, if_pos rfl, textsAt_nil, List.append_nil]
  rw [weave, weaveFrom_append, Nat.zero_add, List.filter_cons_of_neg (by simp), List.filter_nil,
    weaveFrom_nil, List.append_assoc]
  cases back with
  | nil => rw [weaveFrom, hhere, List.append_nil]
  | cons b bs =>
    have hb : b ≠ 0x3B := fun h => hback (congrArg some h)
    have hrest : weaveFrom [⟨front.length, text⟩] (front.length + 1) bs = bs := by
      apply weaveFrom_eq_self
      intro x hx
      obtain rfl := List.mem_singleton.mp hx
      exact .inl (Nat.lt_succ_self _)
    rw [weaveFrom, if_neg hb, hhere, hrest, List.append_assoc]
    rfl

end Insertion

/-- A pass that puts texts between the characters of a text only writes a text. -/
theorem Text.exists_weave_encode_eq {xs : List Insertion} {source : String}
    (h : ∀ x ∈ xs, Text.Boundary source.toList x.point) :
    ∃ text, weave xs (Text.encode source) = Text.encode text := by
  obtain ⟨out, hout⟩ := exists_weaveFrom_eq xs 0 source.toList fun x hx _ _ => h x hx
  exact ⟨String.ofList out, by rw [weave, encode, hout, encode, String.toList_ofList]⟩

/-- An injector that waits for a script gets all insertions into a piece that is the whole of it, if the
    injection point lies in it. -/
theorem Injector.intercept_whole {i : Injector} {target : InjectionTarget} {r : PageResource} {t : Tuple}
    {queue : List Tuple} (htarget : i.target = some target) (hactive : i.active = true)
    (hqueue : i.queue = t :: queue) (hconcerns : target.concerns r.whole = true)
    (hinside : target.point ≤ r.body.length) :
    (i.intercept r.whole).2 = some (weave (target.insertions t) r.body) := by
  have hcovers (point : Nat) : r.whole.covers point = true ↔ point ≤ r.body.length := by
    rw [Chunk.covers_iff]
    simp only [PageResource.whole, Chunk.stop, true_and]
    omega
  have hhere : r.whole.covers target.point = true := (hcovers _).mpr hinside
  simp only [intercept, htarget, hconcerns, if_true, arm_of_covers hactive hqueue hhere]
  have hwoven : applyAll r.body 0 ((target.insertions t).filter fun x => r.whole.covers x.point) =
      weave (target.insertions t) r.body := by
    rw [applyAll_eq_weaveFrom, weaveFrom_filter]
    · rfl
    · intro x _ _ hhigh
      exact (hcovers x.point).mpr (by omega)
    · intro x hx
      exact target.insertions_startPlain t x (List.mem_filter.mp hx).1
    · intro x hx
      have := (hcovers x.point).mp (List.mem_filter.mp hx).2
      omega
  split
  · next hnone =>
    have hmem : (⟨target.point, target.harness.render t⟩ : Insertion) ∈
        (target.insertions t).filter fun x => r.whole.covers x.point :=
      List.mem_filter.mpr ⟨List.mem_cons_self, hhere⟩
    rw [hnone] at hmem
    exact absurd hmem List.not_mem_nil
  · exact congrArg some hwoven

/-- What holds of the injection points of a leaf and of the leaves around it holds of all insertions. -/
theorem Leaf.forall_mem_insertionsFor {E : Nat → Prop} {tree : FunctionTree} {leaf : Leaf}
    (hpoint : E leaf.injectionPoint) (hpoints : ∀ d ∈ tree.dependencies leaf, E d.injectionPoint)
    (harness : Harness) (dependencyArgs : List (List String)) (t : Tuple) :
    ∀ x ∈ leaf.insertionsFor tree harness dependencyArgs t, E x.point := by
  intro x hx
  rcases List.mem_cons.mp hx with rfl | hx
  · exact hpoint
  · split at hx
    · exact absurd hx List.not_mem_nil
    · obtain ⟨⟨d, n⟩, hd, rfl⟩ := List.mem_map.mp hx
      exact hpoints d (List.fst_mem_of_mem_zipIdx hd)

/-- A preview is the source with all insertions in it, whatever the tuple, when the injection points of
    the function and of the functions around it lie between characters of the source. -/
theorem previewInjection_eq {tree : FunctionTree} {path source : String} {leaf : Leaf}
    (hleaf : tree.find? path = some leaf) (hcallable : isCallable leaf.name = true)
    (hname : scriptName leaf.scriptName = leaf.scriptName)
    (hpoint : Text.Boundary source.toList leaf.injectionPoint)
    (hpoints : ∀ d ∈ tree.dependencies leaf, Text.Boundary source.toList d.injectionPoint)
    (dependencyArgs : List (List String)) (t : Tuple) :
    ∃ harness text, Harness.ofLeaf leaf = .ok harness ∧
      previewInjection tree path dependencyArgs t source = .ok text ∧
      Text.encode text = weave (leaf.insertionsFor tree harness dependencyArgs t) (Text.encode source) := by
  obtain ⟨harness, hharness⟩ : ∃ harness, Harness.ofLeaf leaf = .ok harness := by
    rw [Harness.ofLeaf, if_pos hcallable]
    exact ⟨_, rfl⟩
  have hboundaries := Leaf.forall_mem_insertionsFor hpoint hpoints harness dependencyArgs t
  obtain ⟨text, htext⟩ := Text.exists_weave_encode_eq hboundaries
  refine ⟨harness, text, hharness, ?_, htext.symm⟩
  cases htarget : InjectionTarget.ofPath tree path dependencyArgs with
  | error e =>
    simp only [InjectionTarget.ofPath, hleaf, hharness] at htarget
    cases htarget
  | ok target =>
    obtain ⟨hharness', hscript, htargetPoint, hdependencies⟩ :=
      InjectionTarget.ofPath_eq_ok hleaf htarget
    obtain rfl : harness = target.harness := Except.ok.inj (hharness.symm.trans hharness')
    let r : PageResource := ⟨leaf.scriptName, ContentType.script, Text.encode source⟩
    have hconcerns : target.concerns r.whole = true := by
      have hmedia : ContentType.isScript ContentType.script = true := by decide
      simp [InjectionTarget.concerns, PageResource.whole, r, hmedia, hname, hscript]
    have hinsertions := InjectionTarget.insertions_eq_insertionsFor htargetPoint hdependencies t
    have hwoven : (((Injector.load ⟨false, [], some target, []⟩ [t]).activate).intercept r.whole).2 =
        some (weave (target.insertions t) (Text.encode source)) :=
      Injector.intercept_whole rfl rfl rfl hconcerns (htargetPoint ▸ hpoint.le_length)
    have hselect : Injector.empty.select tree path dependencyArgs = .ok ⟨false, [], some target, []⟩ := by
      rw [Injector.select, htarget]
      rfl
    rw [previewInjection, hselect, hleaf]
    have hwhole : (⟨leaf.scriptName, ContentType.script, 0, Text.encode source, true⟩ : Chunk) =
        r.whole := rfl
    simp only [Option.map_some, Option.getD_some, hwhole, hwoven]
    rw [hinsertions, htext, Text.decodeLossy_encode]

/-- A place behind a node of a script, or at the end of its text. -/
def Script.Program.EndsAt (program : Script.Program) (source : String) (place : Nat) : Prop :=
  place = Text.width source.toList ∨ ∃ n ∈ program.nodes, n.span.stop = place

theorem Script.Program.EndsAt.boundary {program : Script.Program} {source : String} {place : Nat}
    (h : program.EndsAt source place) (hparse : Script.parse? source = some program) :
    Text.Boundary source.toList place := by
  obtain rfl | ⟨n, hn, rfl⟩ := h
  · exact ⟨source.toList, [], (List.append_nil _).symm, rfl⟩
  · exact (Script.parse?_boundary hparse hn).2

theorem Leaf.inherited_injectionPoint (E : Nat → Prop) :
    Inherited E fun _ leaf => ∀ l ∈ leaf.walk, E l.injectionPoint := by
  intro s bound range params children hrange hbound hchildren l hl
  rw [walk_eq] at hl
  rcases List.mem_cons.mp hl with rfl | hl
  · change E (s.leaf bound range params).injectionPoint
    rw [Scope.leaf_injectionPoint]
    exact hbound.point hrange
  · obtain ⟨c, hc, hl⟩ := List.mem_flatMap.mp hl
    exact hchildren c hc l hl

theorem scriptName_plain (uri : String) : '/' ∉ (scriptName uri).toList := by
  intro h
  rw [scriptName, String.toList_ofList, Text.lastPiece, List.mem_reverse] at h
  simpa using List.all_eq_true.mp List.all_takeWhile _ h

namespace FunctionTree

/-- The injection point of every leaf of an analysed script is the end of some node, or of the text. -/
theorem analyse_injectionPoint {E : Nat → Prop} {tree tree' : FunctionTree} {script : ScriptSource}
    {withAnonymous : Bool} {report : AnalysisReport}
    (hends : ∀ program, Script.parse? script.source = some program →
      ∀ n ∈ program.nodes, E n.span.stop)
    (hend : E (Text.width script.source.toList))
    (hok : tree.analyse script withAnonymous = .ok (tree', report)) {root l : Leaf}
    (hroot : tree'.scriptRoot? script.name = some root) (hl : l ∈ root.walk) : E l.injectionPoint := by
  obtain ⟨program, found, root', _, _, hparse, hfound, hholds, hbare⟩ := analyse_eq_ok hok
  obtain rfl : root' = root := Option.some.inj (hholds.scriptRoot?.symm.trans hroot)
  obtain ⟨children, hchildren, hfoundRoot⟩ :=
    Discovery.ofProgram_brings (Leaf.inherited_injectionPoint E) (hends program hparse) hfound
  obtain ⟨l', hl', hsame⟩ := Leaf.mem_walk_bare hbare hl
  have hpoint : l.injectionPoint = l'.injectionPoint := by
    have := congrArg Leaf.injectionPoint hsame
    simpa [Leaf.bare] using this.symm
  rw [hpoint]
  rw [hfoundRoot, Leaf.walk_eq] at hl'
  rcases List.mem_cons.mp hl' with rfl | hl'
  · exact hend
  · obtain ⟨c, hc, hl'⟩ := List.mem_flatMap.mp hl'
    exact hchildren c hc l' hl'

/-- The leaves around a leaf are leaves of the same script. -/
theorem mem_walk_of_mem_dependencies {tree : FunctionTree} {file : String} {root leaf d : Leaf}
    (hfile : file ≠ "") (hroot : tree.scriptRoot? file = some root) {more : List String}
    (hpath : Path.segments leaf.path = "" :: file :: more) (hd : d ∈ tree.dependencies leaf) :
    d ∈ root.walk := by
  obtain ⟨i, hi, hfind⟩ := List.mem_filterMap.mp hd
  have hi : 3 ≤ i := by
    rw [List.range_eq_range', List.drop_range', List.mem_range'_1] at hi
    omega
  obtain ⟨n, rfl⟩ := Nat.exists_eq_add_of_le' hi
  have hsegments : Path.segments (Path.join ((Path.segments leaf.path).take (n + 3))) =
      "" :: file :: more.take (n + 1) := by
    rw [Path.segments_join, hpath]
    · rfl
    · rw [hpath]
      exact List.cons_ne_nil _ _
    · exact fun s hs => Path.plain_of_mem_segments (List.mem_of_mem_take hs)
  obtain ⟨root', _, hroot', hd, _⟩ := find?_eq_some hfind
  rw [Path.first_of_segments hfile hsegments, hroot] at hroot'
  exact Option.some.inj hroot' ▸ hd

/-- The preview of an injection into an analysed script is the script with the harness and the calls of
    the functions around in it, each behind a node of the script or at its end. When the result parses again
    is left open: behind some nodes, such as the body of a loop that has its test at the end, no statement
    may stand. -/
theorem analyse_previewInjection {tree tree' : FunctionTree} {script : ScriptSource}
    {withAnonymous : Bool} {report : AnalysisReport}
    (hname : scriptName script.name = script.name)
    (hok : tree.analyse script withAnonymous = .ok (tree', report)) {path : String} {leaf : Leaf}
    (hleaf : tree'.find? path = some leaf) (hscript : leaf.scriptName = script.name)
    (hcallable : isCallable leaf.name = true) (dependencyArgs : List (List String)) (t : Tuple) :
    ∃ program harness text, Script.parse? script.source = some program ∧
      Harness.ofLeaf leaf = .ok harness ∧
      previewInjection tree' path dependencyArgs t script.source = .ok text ∧
      Text.encode text =
        weave (leaf.insertionsFor tree' harness dependencyArgs t) (Text.encode script.source) ∧
      ∀ x ∈ leaf.insertionsFor tree' harness dependencyArgs t, program.EndsAt script.source x.point := by
  obtain ⟨program, _, _, _, _, hparse, _, _, _⟩ := analyse_eq_ok hok
  have hplain : '/' ∉ script.name.toList := hname ▸ scriptName_plain script.name
  obtain ⟨root, hfile, hroot, hmem, hpath⟩ := find?_eq_some hleaf
  have hfirst : Path.first path = script.name := by
    rw [← hscript, Leaf.scriptName, hpath]
  rw [hfirst] at hfile hroot
  obtain ⟨root', hroot', hrootPath, hnames⟩ := analyse_namesChildren hok
  obtain rfl : root' = root := Option.some.inj (hroot'.symm.trans hroot)
  obtain ⟨more, hsegments⟩ := Leaf.segments_of_mem_walk hnames hmem
  rw [hrootPath, Path.segments_ofScript hplain] at hsegments
  have hends : ∀ l ∈ root'.walk, program.EndsAt script.source l.injectionPoint := fun l =>
    analyse_injectionPoint (fun program' hparse' n hn => by
      obtain rfl : program = program' := Option.some.inj (hparse.symm.trans hparse')
      exact .inr ⟨n, hn, rfl⟩) (.inl rfl) hok hroot
  have hdependency (d : Leaf) (hd : d ∈ tree'.dependencies leaf) : d ∈ root'.walk :=
    mem_walk_of_mem_dependencies hfile hroot hsegments hd
  obtain ⟨harness, text, hharness, htext, hwoven⟩ := previewInjection_eq hleaf hcallable
    (by rw [hscript, hname]) ((hends leaf hmem).boundary hparse)
    (fun d hd => (hends d (hdependency d hd)).boundary hparse) dependencyArgs t
  exact ⟨program, harness, text, hparse, hharness, htext, hwoven, Leaf.forall_mem_insertionsFor
    (hends leaf hmem) (fun d hd => hends d (hdependency d hd)) harness dependencyArgs t⟩

end FunctionTree

namespace Sample

/-- A loop whose body is a statement that binds a function. -/
def looping : ScriptSource := ⟨"app.js", "do f=function()\x7b\x7d;while(0);"⟩

/-- The paths and the injection point of a function of an analysed script. -/
def placeOf (script : ScriptSource) (path : String) : Option (List String × Nat) :=
  ((FunctionTree.empty "page").analyse script false).toOption.bind fun analysed =>
    (analysed.1.find? path).map fun leaf => (leaf.paths, leaf.injectionPoint)

theorem analyse_looping :
    ∃ tree report leaf, (FunctionTree.empty "page").analyse looping false = .ok (tree, report) ∧
      tree.find? "/app.js/f" = some leaf ∧ leaf.paths = ["/app.js/f"] ∧ leaf.injectionPoint = 18 := by
  have hplace : placeOf looping "/app.js/f" = some (["/app.js/f"], 18) := by decide +kernel
  rw [placeOf] at hplace
  cases hok : (FunctionTree.empty "page").analyse looping false with
  | error e =>
    rw [hok] at hplace
    cases hplace
  | ok analysed =>
    rw [hok] at hplace
    obtain ⟨leaf, hleaf, hsame⟩ := Option.map_eq_some_iff.mp hplace
    obtain ⟨hpaths, hpoint⟩ := Prod.mk.inj hsame
    exact ⟨analysed.1, analysed.2, leaf, rfl, hleaf, hpaths, hpoint⟩

/-- Behind the body of the loop there has to be a test, whatever else follows. -/
theorem parse?_looping (more : List Char) :
    Script.parse? (String.ofList ("do f=function()\x7b\x7d;\n window.".toList ++ more)) = none := by
  have hmark : Script.withoutMark ("do f=function()\x7b\x7d;\n window.".toList ++ more) =
      (0, "do f=function()\x7b\x7d;\n window.".toList ++ more) := rfl
  unfold Script.parse?
  rw [String.toList_ofList, hmark]
  simp only [Script.nestingBound]
  -- How long the text is does not matter: the refusal is found well before the depth runs out.
  generalize 8 * List.length _ = depth
  unfold Script.State.initial
  cbv

end Sample

namespace FunctionTree

/-- The harness of a function that is bound in the body of a loop stands behind that body, in front of
    the test. Whatever the tuple, what comes of it is no script. -/
theorem analyse_previewInjection_refused :
    ∃ tree report leaf, (empty "page").analyse Sample.looping false = .ok (tree, report) ∧
      tree.find? "/app.js/f" = some leaf ∧ isCallable leaf.name = true ∧
      ∀ t : Tuple, ∃ text, previewInjection tree "/app.js/f" [] t Sample.looping.source = .ok text ∧
        Script.parse? text = none := by
  obtain ⟨tree, report, leaf, hok, hleaf, hpaths, hpoint⟩ := Sample.analyse_looping
  have hpath : leaf.path = "/app.js/f" := by rw [Leaf.path, hpaths]; rfl
  have hcallable : isCallable leaf.name = true := by rw [Leaf.name, hpath]; decide
  have hdependencies : tree.dependencies leaf = [] := by rw [dependencies, hpath]; rfl
  refine ⟨tree, report, leaf, hok, hleaf, hcallable, fun t => ?_⟩
  obtain ⟨harness, text, hharness, htext, hwoven⟩ := previewInjection_eq hleaf hcallable
    (by rw [Leaf.scriptName, hpath]; decide)
    (show Text.Boundary Sample.looping.source.toList leaf.injectionPoint from
      ⟨"do f=function()\x7b\x7d;".toList, "while(0);".toList, rfl, hpoint.symm⟩)
    (by rw [hdependencies]; exact fun _ hd => absurd hd List.not_mem_nil) [] t
  refine ⟨text, htext, ?_⟩
  have htop : harness.isTopLevel = true := by
    rw [Harness.ofLeaf, if_pos hcallable] at hharness
    rw [← Except.ok.inj hharness, Harness.isTopLevel, Leaf.nestedDegree, hpath]
    exact decide_eq_true (show Path.depth "/app.js/f" - 1 ≤ 1 by decide)
  obtain ⟨more, hmore⟩ := Harness.exists_render_eq htop t
  have hspliced : Text.encode text =
      Text.encode ("do f=function()\x7b\x7d;" ++ harness.render t ++ "while(0);") := by
    have hsource : Text.encode Sample.looping.source =
        Text.encode "do f=function()\x7b\x7d;" ++ Text.encode "while(0);" := by decide
    have hlength : (Text.encode "do f=function()\x7b\x7d;").length = 18 := by decide
    rw [hwoven, Leaf.insertionsFor, if_pos htop, hpoint, hsource, Text.encode_append, Text.encode_append,
      ← hlength]
    exact weave_single _ _ (by decide)
  have hwhole : text = String.ofList
      ("do f=function()\x7b\x7d;\n window.".toList ++ (more ++ "while(0);".toList)) := by
    have hfront : "do f=function()\x7b\x7d;\n window.".toList =
        "do f=function()\x7b\x7d;".toList ++ "\n window.".toList := by decide
    rw [Text.encode_inj.mp hspliced, ← String.toList_inj, String.toList_ofList, hfront,
      String.toList_append, String.toList_append, hmore]
    simp only [List.append_assoc]
  rw [hwhole]
  exact Sample.parse?_looping _

theorem analyse_previewInjection_looping :
    ∃ tree report, (empty "page").analyse Sample.looping false = .ok (tree, report) ∧
      ∀ t : Tuple, ∃ text, previewInjection tree "/app.js/f" [] t Sample.looping.source = .ok text := by
  obtain ⟨tree, report, leaf, hok, hleaf, hpaths, _⟩ := Sample.analyse_looping
  have hpath : leaf.path = "/app.js/f" := by rw [Leaf.path, hpaths]; rfl
  refine ⟨tree, report, hok, fun t => ?_⟩
  obtain ⟨_, _, text, _, _, htext, _⟩ := analyse_previewInjection (by decide) hok hleaf
    (by rw [Leaf.scriptName, hpath]; decide) (by rw [Leaf.name, hpath]; decide) [] t
  exact ⟨text, htext⟩

end FunctionTree
end PageProbe
