import PageProbe.Proofs.Json.Reading
import PageProbe.Tree.Wire

namespace PageProbe

open Json

/-- Both ends are numbers of 64 bits. -/
def Span.Bounded (s : Span) : Prop := s.start < Nat.pow 2 64 ∧ s.stop < Nat.pow 2 64
deriving Decidable

theorem Span.reads {s : Span} (h : s.Bounded) : Span.decode.Reads s.write s := by
  refine Record.reads (by decide) (.refl _) fun room => ?_
  simp [List.lookup_cons, Field.required_ofMember (Decoder.reads_nat h.1),
    Field.required_ofMember (Decoder.reads_nat h.2), ite_and]

def UsedFunction.Bounded (u : UsedFunction) : Prop := u.range.Bounded ∧ u.line < Nat.pow 2 64
deriving Decidable

theorem UsedFunction.reads {u : UsedFunction} (h : u.Bounded) :
    UsedFunction.decode.Reads u.write u := by
  have hnames := ((List.Sublist.refl ["name", "range", "line", "arguments"]).append
    (Document.optional_names "path" .string u.path)).append (.refl ["immediately_invoked"])
  refine Record.reads (by decide) (by simpa using hnames) fun room => ?_
  have hpath := Field.orElse_ofMember_optional "path" .string (o := u.path)
    (fun s _ => Decoder.reads_string s) (fun s _ => Document.noConfusion) room
  simp [List.lookup_append, List.lookup_cons, Document.lookup_optional, hpath,
    Field.required_ofMember (Decoder.reads_string u.name), Field.required_ofMember (Span.reads h.1),
    Field.required_ofMember (Decoder.reads_nat h.2), Field.required_ofMember (Decoder.reads_strings u.arguments),
    Field.orElse_ofMember (Decoder.reads_bool u.immediatelyInvoked), ite_and]

theorem Holder.reads {h : Holder} (hstop : h.stop < Nat.pow 2 64) : Holder.decode.Reads h.write h := by
  refine Record.reads (by decide) (.refl _) fun room => ?_
  simp [List.lookup_cons, Field.required_ofMember (Decoder.reads_string h.name),
    Field.required_ofMember (Decoder.reads_nat hstop), ite_and]

namespace Leaf

/-- Every number that a leaf holds itself is one of 64 bits. -/
structure Bounded (leaf : Leaf) : Prop where
  range : leaf.range.Bounded
  used : ∀ u ∈ leaf.usedFunctions, u.Bounded
  holder : ∀ h ∈ leaf.fromObject, h.stop < Nat.pow 2 64
  declared : ∀ n ∈ leaf.declarationEnd, n < Nat.pow 2 64
  anonymous : ∀ n ∈ leaf.anonymousEnd, n < Nat.pow 2 64

instance (leaf : Leaf) : Decidable leaf.Bounded :=
  decidable_of_iff (leaf.range.Bounded ∧ (∀ u ∈ leaf.usedFunctions, u.Bounded) ∧
      (∀ h ∈ leaf.fromObject, h.stop < Nat.pow 2 64) ∧ (∀ n ∈ leaf.declarationEnd, n < Nat.pow 2 64) ∧
      ∀ n ∈ leaf.anonymousEnd, n < Nat.pow 2 64)
    ⟨fun ⟨range, used, holder, declared, anonymous⟩ => ⟨range, used, holder, declared, anonymous⟩,
      fun h => ⟨h.range, h.used, h.holder, h.declared, h.anonymous⟩⟩

/-- A leaf is decoded with a decoder for its children, whatever that decoder makes of the document as a
    whole. -/
theorem decodeWith_congr {child child' : Decoder Leaf} {room : Nat}
    (h : ∀ r < room, ∀ d, child r d = child' r d) (d : Document) :
    decodeWith child room d = decodeWith child' room d := by
  rw [decodeWith, decodeWith]
  cases hfields : Record.fields fieldNames false room d with
  | none => rfl
  | some fs =>
    have hchildren : ∀ f ∈ fs, f.orElse [] (Decoder.array child) = f.orElse [] (Decoder.array child') := by
      intro f hf
      cases f with
      | present r d' =>
        have hroom := Record.room_of_mem_fields hfields hf
        exact Decoder.array_congr (fun r' hr' => h r' (Nat.lt_trans hr' hroom)) d'
      | _ => rfl
    simp only [Option.bind_eq_bind, Option.bind_some]
    split
    · next paths args range children used holder source declared anonymous =>
      rw [hchildren children (by simp)]
    · rfl

theorem decodeLevels_eq {n n' room : Nat} (h : room < n) (h' : room < n') (d : Document) :
    decodeLevels n room d = decodeLevels n' room d := by
  induction room using Nat.strongRecOn generalizing n n' d with
  | ind room ih =>
    obtain ⟨n, rfl⟩ : ∃ m, n = m + 1 := ⟨n - 1, by omega⟩
    obtain ⟨n', rfl⟩ : ∃ m, n' = m + 1 := ⟨n' - 1, by omega⟩
    exact decodeWith_congr (fun r hr d => ih r hr (by omega) (by omega) d) d

/-- The levels of children that `decode` allows for are enough. -/
theorem decode_eq : Leaf.decode = decodeWith Leaf.decode := by
  funext room d
  exact decodeWith_congr (fun r hr d => decodeLevels_eq hr (Nat.lt_succ_self r) d) d

theorem writeAll_eq_map (leaves : List Leaf) : writeAll leaves = leaves.map write := by
  induction leaves with
  | nil => rfl
  | cons c cs ih => rw [writeAll, ih, List.map_cons]

theorem write_eq (leaf : Leaf) :
    leaf.write =
      .object ([("paths", .strings leaf.paths), ("args", .strings leaf.args), ("range", leaf.range.write),
        ("children", .array (writeAll leaf.children))] ++ leaf.writeRest) := by
  cases leaf
  rfl

/-- All members behind the children but the first are optional; the sources are left out when there are
    none. -/
theorem writeRest_eq (leaf : Leaf) :
    ∃ source : Option (List String), source.getD [] = leaf.functionSource ∧
      leaf.writeRest =
        [("used_functions", .array (leaf.usedFunctions.map UsedFunction.write))] ++
          Document.optional "from_object" Holder.write leaf.fromObject ++
          Document.optional "function_source" .strings source ++
          Document.optional "declaration_end" .ofNat leaf.declarationEnd ++
          Document.optional "anonymous_end" .ofNat leaf.anonymousEnd := by
  cases hsource : leaf.functionSource with
  | nil => exact ⟨none, rfl, by rw [writeRest, hsource]; rfl⟩
  | cons s rest => exact ⟨some (s :: rest), rfl, by rw [writeRest, hsource]; rfl⟩

/-- A form names some of the fields of a leaf, in their order. -/
theorem write_names (leaf : Leaf) :
    (["paths", "args", "range", "children"] ++ leaf.writeRest.map Prod.fst).Sublist fieldNames := by
  obtain ⟨source, -, hrest⟩ := leaf.writeRest_eq
  rw [hrest, List.map_append, List.map_append, List.map_append, List.map_append]
  exact (List.Sublist.refl _).append (((((List.Sublist.refl ["used_functions"]).append
    (Document.optional_names "from_object" _ _)).append (Document.optional_names "function_source" _ _)).append
    (Document.optional_names "declaration_end" _ _)).append (Document.optional_names "anonymous_end" _ _))

theorem reads_of_children {leaf : Leaf} (h : leaf.Bounded)
    (hchildren : ∀ c ∈ leaf.children, Leaf.decode.Reads c.write c) :
    Leaf.decode.Reads leaf.write leaf := by
  have hnames := leaf.write_names
  obtain ⟨source?, hsource?, hrest⟩ := leaf.writeRest_eq
  obtain ⟨paths, args, range, children, used, holder, source, declared, anonymous⟩ := leaf
  obtain ⟨hrange, hused, hholder, hdeclared, hanonymous⟩ := h
  have hchildren : (Decoder.array Leaf.decode).Reads (.array (writeAll children)) children :=
    writeAll_eq_map children ▸ Decoder.reads_array_map hchildren
  have hused := Decoder.reads_array_map fun u hu => UsedFunction.reads (hused u hu)
  rw [decode_eq]
  refine Record.reads (by decide) hnames fun room => ?_
  have hholder := Field.orElse_ofMember_optional "from_object" Holder.write (o := holder)
    (fun o ho => Holder.reads (hholder o ho)) (fun _ _ => Document.noConfusion) room
  have hsource := Field.orElse_ofMember_default "function_source" .strings (o := source?)
    (fun s _ => Decoder.reads_strings s) [] room
  have hdeclared := Field.orElse_ofMember_optional "declaration_end" .ofNat (o := declared)
    (fun n hn => Decoder.reads_nat (hdeclared n hn)) (fun _ _ => Document.noConfusion) room
  have hanonymous := Field.orElse_ofMember_optional "anonymous_end" .ofNat (o := anonymous)
    (fun n hn => Decoder.reads_nat (hanonymous n hn)) (fun _ _ => Document.noConfusion) room
  simp [hrest, fieldNames, List.lookup_append, List.lookup_cons, Document.lookup_optional,
    Field.required_ofMember (Decoder.reads_strings paths), Field.required_ofMember (Decoder.reads_strings args),
    Field.required_ofMember (Span.reads hrange), Field.orElse_ofMember hchildren, Field.orElse_ofMember hused,
    hholder, hsource, hsource?, hdeclared, hanonymous, ite_and]

mutual
/-- Decoding the form of a leaf whose numbers all are of 64 bits gives the leaf. -/
theorem reads : ∀ leaf : Leaf, (∀ l ∈ leaf.walk, l.Bounded) → Leaf.decode.Reads leaf.write leaf
  | ⟨paths, args, range, children, used, holder, source, declared, anonymous⟩, h => by
    obtain ⟨hleaf, hbelow⟩ := List.forall_mem_cons.mp h
    exact reads_of_children hleaf (readsAll children hbelow)

theorem readsAll : ∀ leaves : List Leaf, (∀ l ∈ walkAll leaves, l.Bounded) →
    ∀ leaf ∈ leaves, Leaf.decode.Reads leaf.write leaf
  | [], _ => List.forall_mem_nil _
  | c :: cs, h => by
    obtain ⟨hc, hcs⟩ := List.forall_mem_append.mp h
    exact List.forall_mem_cons.mpr ⟨reads c hc, readsAll cs hcs⟩
end

end Leaf

namespace FunctionTree

/-- Every number of a tree is one of 64 bits. -/
def Bounded (tree : FunctionTree) : Prop := ∀ root ∈ tree.children, ∀ leaf ∈ root.walk, leaf.Bounded
deriving Decidable

theorem reads {tree : FunctionTree} (h : tree.Bounded) : FunctionTree.decode.Reads tree.write tree := by
  have hchildren := Decoder.reads_array_map fun root hroot => Leaf.reads root (h root hroot)
  rw [← Leaf.writeAll_eq_map] at hchildren
  refine Record.reads (by decide) (.refl _) fun room => ?_
  simp [List.lookup_cons, Field.required_ofMember (Decoder.reads_string tree.page),
    Field.required_ofMember hchildren, ite_and]

end FunctionTree

theorem Span.legible {s : Span} (h : s.Bounded) : s.write.Legible :=
  .object (by simp [Document.legible_ofNat h.1, Document.legible_ofNat h.2])

theorem UsedFunction.legible {u : UsedFunction} (h : u.Bounded) : u.write.Legible := by
  have hpath := Document.legible_optional "path" .string (o := u.path) fun s _ => .string s
  refine .object (List.forall_mem_append.mpr ⟨List.forall_mem_append.mpr ⟨?_, hpath⟩, ?_⟩)
  · simp [Document.Legible.string, Span.legible h.1, Document.legible_ofNat h.2, Document.legible_strings]
  · simp [Document.Legible.bool]

theorem Holder.legible {h : Holder} (hstop : h.stop < Nat.pow 2 64) : h.write.Legible :=
  .object (by simp [Document.Legible.string, Document.legible_ofNat hstop])

namespace Leaf

theorem legible_of_children {leaf : Leaf} (h : leaf.Bounded) (hchildren : ∀ c ∈ leaf.children, c.write.Legible) :
    leaf.write.Legible := by
  obtain ⟨source, -, hrest⟩ := leaf.writeRest_eq
  have hchildren : (Document.array (writeAll leaf.children)).Legible :=
    writeAll_eq_map leaf.children ▸ Document.legible_array_map hchildren
  have hused : (Document.array (leaf.usedFunctions.map UsedFunction.write)).Legible :=
    Document.legible_array_map fun u hu => UsedFunction.legible (h.used u hu)
  have hmembers : ∀ m ∈ leaf.writeRest, m.2.Legible := by
    rw [hrest]
    simp only [List.forall_mem_append, List.forall_mem_singleton]
    exact ⟨⟨⟨⟨hused, Document.legible_optional "from_object" Holder.write fun o ho => Holder.legible (h.holder o ho)⟩,
      Document.legible_optional "function_source" .strings fun s _ => Document.legible_strings s⟩,
      Document.legible_optional "declaration_end" .ofNat fun n hn => Document.legible_ofNat (h.declared n hn)⟩,
      Document.legible_optional "anonymous_end" .ofNat fun n hn => Document.legible_ofNat (h.anonymous n hn)⟩
  rw [write_eq]
  refine .object (List.forall_mem_append.mpr ⟨?_, hmembers⟩)
  simp [Document.legible_strings, Span.legible h.range, hchildren]

mutual
theorem legible : ∀ leaf : Leaf, (∀ l ∈ leaf.walk, l.Bounded) → leaf.write.Legible
  | ⟨paths, args, range, children, used, holder, source, declared, anonymous⟩, h => by
    obtain ⟨hleaf, hbelow⟩ := List.forall_mem_cons.mp h
    exact legible_of_children hleaf (legibleAll children hbelow)

theorem legibleAll : ∀ leaves : List Leaf, (∀ l ∈ walkAll leaves, l.Bounded) →
    ∀ leaf ∈ leaves, leaf.write.Legible
  | [], _ => List.forall_mem_nil _
  | c :: cs, h => by
    obtain ⟨hc, hcs⟩ := List.forall_mem_append.mp h
    exact List.forall_mem_cons.mpr ⟨legible c hc, legibleAll cs hcs⟩
end

end Leaf

namespace FunctionTree

theorem legible {tree : FunctionTree} (h : tree.Bounded) : tree.write.Legible := by
  have hchildren := Document.legible_array_map fun root hroot => Leaf.legible root (h root hroot)
  rw [← Leaf.writeAll_eq_map] at hchildren
  exact .object (by simp [Document.Legible.string, hchildren])

/-- A tree can be told from its form. The form is decoded at any depth, and its text if it nests no more
    levels than a text may. No shape of the tree is assumed, only that its numbers are of 64 bits. -/
theorem decode_write {tree : FunctionTree} (h : tree.Bounded) :
    FunctionTree.decode.Restores tree.write tree ∧
      ∀ other : FunctionTree, other.Bounded → tree.write.compact = other.write.compact → tree = other := by
  refine ⟨(reads h).restores (legible h), fun other hother htext => ?_⟩
  have hwrite := (legible h).compact_inj (legible hother) htext
  have hdecoded := ((reads h).restores (legible h)).1
  rw [hwrite, ((reads hother).restores (legible hother)).1] at hdecoded
  exact (Option.some.inj hdecoded).symm

end FunctionTree

namespace Sample

/-- A script that calls the method that it declares. -/
def storedTree : FunctionTree where
  page := "page"
  children := [
    { Leaf.new "/a.js" ⟨0, 46⟩ with
      usedFunctions := [⟨"o.clean", ⟨36, 46⟩, 2, ["1"], some "/a.js/o.clean", false⟩]
      children := [
        { Leaf.new "/a.js/o.clean" ⟨8, 32⟩ with
          args := ["x"], fromObject := some ⟨"o", 34⟩, functionSource := ["{}"], declarationEnd := some 35 }] }]

theorem storedTree_bounded : storedTree.Bounded := by decide

end Sample

/-- The form of a tree with optional members that are there and some that are not. -/
theorem FunctionTree.decode_write_stored :
    Sample.storedTree.Bounded ∧ FunctionTree.decode.unbounded Sample.storedTree.write = some Sample.storedTree ∧
      Decoder.ofText FunctionTree.decode Sample.storedTree.write.compact = some Sample.storedTree := by
  obtain ⟨⟨hform, htext⟩, -⟩ := FunctionTree.decode_write Sample.storedTree_bounded
  rw [if_pos (by decide)] at htext
  exact ⟨Sample.storedTree_bounded, hform, htext⟩

namespace Sample

/-- A function with so many functions below it, each in the one before. -/
def nestedLeaf : Nat → String → Leaf
  | 0, path => Leaf.new path ⟨0, 0⟩
  | n + 1, path => { Leaf.new path ⟨0, 0⟩ with children := [nestedLeaf n (path ++ "/f")] }

def nestedTree (n : Nat) : FunctionTree := ⟨"page", [nestedLeaf n "/a.js"]⟩

theorem nestedLeaf_bounded (n : Nat) (path : String) : ∀ l ∈ (nestedLeaf n path).walk, l.Bounded := by
  have hown : ∀ path children, Leaf.Bounded { Leaf.new path ⟨0, 0⟩ with children := children } := by
    intro path children
    exact ⟨⟨Nat.pow_pos (by decide), Nat.pow_pos (by decide)⟩, nofun, nofun, nofun, nofun⟩
  induction n generalizing path with
  | zero => exact List.forall_mem_singleton.mpr (hown path [])
  | succ n ih =>
    have hbelow := List.forall_mem_append.mpr ⟨ih (path ++ "/f"), List.forall_mem_nil _⟩
    exact List.forall_mem_cons.mpr ⟨hown path _, hbelow⟩

/-- Each function takes two levels of nesting. -/
theorem nestedLeaf_height (n : Nat) (path : String) : (nestedLeaf n path).write.height = 2 * n + 2 := by
  induction n generalizing path with
  | zero => rfl
  | succ n ih =>
    have hchildren : (Document.array (Leaf.writeAll (nestedLeaf (n + 1) path).children)).height = 2 * n + 3 := by
      simp [nestedLeaf, Leaf.writeAll, Document.height, Document.itemsHeight, ih]
    have hrest : (nestedLeaf (n + 1) path).writeRest = [("used_functions", .array [])] := rfl
    have hpaths : (Document.strings (nestedLeaf (n + 1) path).paths).height = 1 := rfl
    have hargs : (Document.strings (nestedLeaf (n + 1) path).args).height = 1 := rfl
    have hrange : (nestedLeaf (n + 1) path).range.write.height = 1 := rfl
    have hused : (Document.array []).height = 1 := rfl
    rw [Leaf.write_eq, hrest, Document.height]
    simp only [List.cons_append, List.nil_append, Document.membersHeight, hpaths, hargs, hrange, hchildren, hused]
    omega

theorem nestedTree_bounded (n : Nat) : (nestedTree n).Bounded :=
  List.forall_mem_singleton.mpr (nestedLeaf_bounded n "/a.js")

theorem nestedTree_height (n : Nat) : (nestedTree n).write.height = 2 * n + 4 := by
  simp [FunctionTree.write, nestedTree, Leaf.writeAll, Document.height, Document.membersHeight,
    Document.itemsHeight, nestedLeaf_height]

end Sample

namespace FunctionTree

/-- Sixty-two functions below a script are too many for a text. -/
theorem decode_write_nested :
    (Sample.nestedTree 62).Bounded ∧
      Decoder.ofText FunctionTree.decode (Sample.nestedTree 62).write.compact = none := by
  have hbounded := Sample.nestedTree_bounded 62
  have htext := ((reads hbounded).restores (legible hbounded)).2
  rw [Sample.nestedTree_height, if_neg (by decide)] at htext
  exact ⟨hbounded, htext⟩

end FunctionTree
end PageProbe
