import Mathlib.Data.List.Nodup
import PageProbe.Proofs.Tree.Account

namespace PageProbe

open Script Script.Node

/-- However a node is held, what is found in it accounts for it. -/
structure Accounted (n : Node) : Prop where
  passed (s : Scope) (around : List Span) :
    (declared s n).Accounts s.withAnonymous around (n.held s.withAnonymous around .other)
  claimed (s : Scope) (around : List Span) {bound : Bound} {role : Role}
    (h : Claimed s.withAnonymous bound role n) :
    (declaredAs s bound n).Accounts s.withAnonymous around (n.held s.withAnonymous around role)

namespace Accounted

variable (s : Scope) (around : List Span)

theorem all {ns : List Node} (h : ∀ n ∈ ns, Accounted n) :
    (declaredAll s ns).Accounts s.withAnonymous around
      (ns.flatMap (held s.withAnonymous around .other)) := by
  induction ns with
  | nil => exact .nil
  | cons n rest ih =>
    obtain ⟨hn, hrest⟩ := List.forall_mem_cons.mp h
    rw [declaredAll, List.flatMap_cons]
    exact (hn.passed s around).append (ih hrest)

theorem option {o : Option Node} (h : ∀ n ∈ o.toList, Accounted n) :
    (declaredOption s o).Accounts s.withAnonymous around
      (o.toList.flatMap (held s.withAnonymous around .other)) := by
  cases o with
  | none => exact .nil
  | some n =>
    rw [declaredOption, Option.toList_some, List.flatMap_singleton]
    exact (h n (List.mem_singleton.mpr rfl)).passed s around

/-- The parts of a function. -/
theorem appendAll {ns ms : List Node} (h : ∀ n ∈ ns ++ ms, Accounted n) :
    Indexer.Accounts (do return (← declaredAll s ns) ++ (← declaredAll s ms)) s.withAnonymous around
      ((ns ++ ms).flatMap (held s.withAnonymous around .other)) := by
  rw [List.flatMap_append]
  exact (all s around fun n hn => h n (List.mem_append_left ms hn)).append
    (all s around fun n hn => h n (List.mem_append_right ns hn))

/-- The parts of a member of an object. -/
theorem appendValue {keyParts : List Node} {value : Node} (h : ∀ n ∈ keyParts ++ [value], Accounted n) :
    Indexer.Accounts (do return (← declaredAll s keyParts) ++ (← declared s value)) s.withAnonymous around
      ((keyParts ++ [value]).flatMap (held s.withAnonymous around .other)) := by
  rw [List.flatMap_append, List.flatMap_singleton]
  exact (all s around fun n hn => h n (List.mem_append_left [value] hn)).append
    ((h value List.mem_concat_self).passed s around)

/-- A value with a name is bound if it is a function or an object, and passed through otherwise. -/
theorem named {value : Node} (h : Accounted value) {bound : Bound} {root : Root} {role : Role}
    (hroot : bound.root? = some root) (hindexes : ∀ named, role.indexes s.withAnonymous named = true)
    (hroots : role.roots = true) (hreport : role.report? = none) {rest : Indexer (List Leaf)}
    {fs : List HeldFunction} (hrest : rest.Accounts s.withAnonymous around fs) :
    Indexer.Accounts
      (if value.isFunction || value.unparen.isObject then do
        return (← declaredAs s bound value) ++ (← rest)
      else do return (← declared s value) ++ (← rest))
      s.withAnonymous around (value.held s.withAnonymous around role ++ fs) := by
  split
  · rename_i hbound
    exact (h.claimed s around (.of_value hindexes hroots hroot hbound)).append hrest
  · rename_i hbound
    exact ((h.passed s around).idle (.of_node hbound) hreport).append hrest

theorem names (stop : Nat) {ns : List Node} (h : ∀ n ∈ ns, ∀ m ∈ n.subtree, Accounted m) :
    (declaredNames s stop ns).Accounts s.withAnonymous around (ns.flatMap fun d =>
      d.declaratorRoles.flatMap fun p => p.2.held s.withAnonymous around p.1) := by
  induction ns with
  | nil => exact .nil
  | cons n rest ih =>
    obtain ⟨hn, hrest⟩ := List.forall_mem_cons.mp h
    have hself := (hn n n.self_mem_subtree).passed s around
    have hvisited (hroles : n.declaratorRoles = [(.other, n)]) := (hself.passed hroles).append (ih hrest)
    rw [List.flatMap_cons]
    -- A name with a value is bound; whatever else stands in a declaration is passed through.
    cases n with
    | declarator span binding init =>
      cases binding with
      | name place id =>
        cases init with
        | none => exact hvisited rfl
        | some value =>
          have hvalue := hn value (mem_subtree_of_part (by simp [parts]) value.self_mem_subtree)
          rw [declaredNames, declaratorRoles, List.flatMap_singleton]
          exact hvalue.named s around rfl (fun _ => rfl) rfl rfl (ih hrest)
      | _ => exact hvisited rfl
    | _ => exact hvisited rfl

theorem members (root : Root) {ns : List Node} (hshaped : ∀ n ∈ ns, n.Shaped)
    (h : ∀ n ∈ ns, ∀ m ∈ n.subtree, Accounted m) :
    (declaredMembers s root ns).Accounts s.withAnonymous around (ns.flatMap fun m =>
      (m.memberRoles true).flatMap fun p => p.2.held s.withAnonymous around p.1) := by
  induction ns with
  | nil => exact .nil
  | cons n rest ih =>
    obtain ⟨hn, hrest⟩ := List.forall_mem_cons.mp h
    obtain ⟨hnode, hnodes⟩ := List.forall_mem_cons.mp hshaped
    have hself := (hn n n.self_mem_subtree).passed s around
    have hpart (p : Node) (hp : p ∈ n.parts) := hn p (mem_subtree_of_part hp p.self_mem_subtree)
    have hvisited (hroles : n.memberRoles true = [(.other, n)]) :=
      (hself.passed hroles).append (ih hnodes hrest)
    rw [List.flatMap_cons]
    -- Members are bound by their keys, and passed through when those are not known.
    cases n with
    | property span known keyParts value =>
      cases known with
      | none =>
        rw [held_of_parts rfl rfl] at hself
        exact (hself.idleValue (.of_role (fun _ => rfl) rfl) rfl).append (ih hnodes hrest)
      | some key =>
        obtain rfl : keyParts = [] := List.isEmpty_iff.mp hnode.self
        have hvalue : Accounted value := hpart value (by simp [parts])
        have hroot : (Bound.member root key).root? = some { root with keys := root.keys ++ [key] } := rfl
        rw [memberRoles, List.map_nil, List.nil_append, List.flatMap_singleton]
        simpa only [declaredMembers, declaredAll, pure_bind, List.nil_append, bind_pure] using
          hvalue.named s around hroot (fun _ => rfl) rfl rfl (ih hnodes hrest)
    | method span keyStart known keyParts f =>
      cases known with
      | none =>
        rw [held_of_parts rfl rfl] at hself
        exact (hself.idleValue (.of_role (fun _ => rfl) rfl) rfl).append (ih hnodes hrest)
      | some key =>
        obtain ⟨hkey, hf⟩ := Bool.and_eq_true_iff.mp hnode.self
        have hclaimed : Claimed s.withAnonymous (.member root key) (.keyed true true ⟨keyStart, span.stop⟩) f :=
          .of_function (fun _ => rfl) hf
        rw [declaredMembers, memberRoles, List.isEmpty_iff.mp hkey, List.map_nil, List.nil_append,
          List.flatMap_singleton]
        exact ((hpart f (by simp [parts])).claimed s around hclaimed).append (ih hnodes hrest)
    | _ => exact hvisited rfl

/-- What an argument holds is bound as what the argument is without its spread mark. -/
theorem unspread {n : Node} (h : ∀ m ∈ n.subtree, Accounted m) {bound : Bound} {role : Role}
    (hclaimed : Claimed s.withAnonymous bound role n.unspread) :
    (declaredAs s bound n).Accounts s.withAnonymous around
      (n.unspread.held s.withAnonymous around role) := by
  rw [← declaredAs_unspread]
  exact (h n.unspread n.unspread_mem_subtree).claimed s around hclaimed

theorem arguments (stop : Nat) (hwith : s.withAnonymous = true) {ns : List Node}
    (h : ∀ n ∈ ns, ∀ m ∈ n.subtree, Accounted m) :
    (declaredArguments s stop ns).Accounts s.withAnonymous around
      (ns.flatMap fun a => a.unspread.held s.withAnonymous around .argument) := by
  induction ns with
  | nil => exact .nil
  | cons n rest ih =>
    obtain ⟨hn, hrest⟩ := List.forall_mem_cons.mp h
    rw [declaredArguments, List.flatMap_cons]
    split
    · rename_i hanonymous
      have hclaimed (index : Nat) : Claimed s.withAnonymous (.anonymous index stop) .argument n.unspread := by
        rw [hwith]
        exact .of_argument hanonymous
      exact Indexer.Tells.nextAnonymous.bind fun index _ =>
        (unspread s around hn (hclaimed index)).append (ih hrest)
    · rename_i hanonymous
      have hself := (hn n n.self_mem_subtree).passed s around
      rw [← held_unspread] at hself
      exact (hself.idle (.of_argument (eq_false_of_ne_true hanonymous)) rfl).append (ih hrest)

theorem extensions {bound : Bound} {root : Root} (hroot : bound.root? = some root) {ns : List Node}
    (h : ∀ n ∈ ns, ∀ m ∈ n.subtree, Accounted m) :
    (declaredExtensions s bound ns).Accounts s.withAnonymous around
      (ns.flatMap fun a => a.unspread.held s.withAnonymous around .extension) := by
  induction ns with
  | nil => exact .nil
  | cons n rest ih =>
    obtain ⟨hn, hrest⟩ := List.forall_mem_cons.mp h
    rw [declaredExtensions, List.flatMap_cons]
    split
    · rename_i hobject
      exact (unspread s around hn (.of_extension hroot hobject)).append (ih hrest)
    · rename_i hobject
      have hself := (hn n n.self_mem_subtree).passed s around
      rw [← held_unspread] at hself
      exact (hself.idle (.of_extension (eq_false_of_ne_true hobject)) rfl).append (ih hrest)

/-- The arguments of a call are bound by what it extends, or indexed on demand, or passed through. -/
theorem call {span : Span} {callee : Node} {args : List Node} (hcallee : Accounted callee)
    (hargs : ∀ a ∈ args, ∀ m ∈ a.subtree, Accounted m) :
    (declared s (.call span callee args)).Accounts s.withAnonymous around
      ((Node.call span callee args).held s.withAnonymous around .other) := by
  have hfound := hcallee.passed s around
  rw [declared, held_call, argumentRole]
  cases hextend : extendOf callee args with
  | root name => exact hfound.append (extensions s around rfl hargs)
  | arity count => exact .throw _
  | none =>
    by_cases hwith : s.withAnonymous = true
    · simp only [if_pos hwith]
      exact hfound.append (arguments s around _ hwith hargs)
    · have hidle (a : Node) (_ : a ∈ args) : Role.argument.Idle s.withAnonymous a.unspread :=
        .of_role (fun _ => by rw [eq_false_of_ne_true hwith]; rfl) rfl
      have hall := all s around fun a ha => hargs a ha a a.self_mem_subtree
      simp only [if_neg hwith]
      exact hfound.append (hall.idleAll hidle rfl)

/-- What is assigned to a chain of names is bound, if it can be. Any other function that is assigned is
    reported unless it has a name. -/
theorem assign {span : Span} {target value : Node} (hshaped : target.Shaped) (htarget : Accounted target)
    (hvalue : Accounted value) :
    (declared s (.assign span true target value)).Accounts s.withAnonymous around
      ((Node.assign span true target value).held s.withAnonymous around .other) := by
  have hboth := (htarget.passed s around).append (hvalue.passed s around)
  have hidle (h : ¬(value.isFunction || value.unparen.isObject) = true) :=
    have hrole : (Role.assigned true span).Idle s.withAnonymous value := .of_node h
    (htarget.passed s around).append ((hvalue.passed s around).idle hrole rfl)
  unfold declared
  rw [held_assign]
  split
  · rename_i name aliases _ hname hnames
    rw [hname]
    split
    · rename_i hbound
      rw [held_of_targetName? hshaped hname]
      exact hvalue.claimed s around (.of_chain (fun _ => rfl) rfl rfl hnames hbound)
    · rename_i hbound
      exact hidle fun h => hbound (boundValue_of_value h)
  · rename_i hother
    cases hname : target.targetName? with
    | none => exact hboth.unnamed
    | some name =>
      -- A function or an object is a chain of no names, so it would have been bound.
      have hplain : ¬(value.isFunction || value.unparen.isObject) = true := fun h =>
        hother name [] rfl hname (boundNames?_of_value h)
      have hfunction : ¬(true && value.isFunction) = true := fun h =>
        hplain (Bool.or_eq_true_iff.mpr (.inl h))
      dsimp only
      rw [if_neg hfunction]
      exact hidle hplain

/-- An object without a name is reported for each of its members that is a function. -/
theorem object {span : Span} {members : List Node} (hshaped : ∀ m ∈ members, m.Shaped)
    (h : ∀ m ∈ members, Accounted m) :
    (declared s (.object span members)).Accounts s.withAnonymous around
      ((Node.object span members).held s.withAnonymous around .other) := by
  rw [declared, held_object]
  refine ((reportMembers_tells s members).bind fun _ _ => all s around h).imp (fun _ hplaces => ?_) ?_
  · rw [hplaces, HeldFunction.places_flatMap, HeldFunction.places_flatMap]
    exact List.flatMap_congr fun m hm => (held_member_unrooted around (hshaped m hm)).1.symm
  · rw [HeldFunction.reports_flatMap, HeldFunction.reports_flatMap, List.filterMap_eq_flatMap_toList]
    refine (List.flatMap_append_perm members _ _).trans (.flatMap_left members fun m hm => ?_)
    exact (held_member_unrooted around (hshaped m hm)).2

end Accounted

theorem declared_accounts (s : Scope) (around : List Span) {n : Node} (hshaped : n.Shaped)
    (h : ∀ p ∈ n.parts, ∀ m ∈ p.subtree, Accounted m) :
    (declared s n).Accounts s.withAnonymous around (n.held s.withAnonymous around .other) := by
  have hpart (p : Node) (hp : p ∈ n.parts) : Accounted p := h p hp p p.self_mem_subtree
  have hfirst {p : Node} {ps : List Node} (hparts : n.parts = p :: ps) :=
    (hpart p (by rw [hparts]; exact List.mem_cons_self)).passed s around
  cases n with
  | paren _ inner =>
    rw [declared, held_paren]
    exact hfirst rfl
  | member _ holder _ ps =>
    rw [declared, held_of_parts rfl rfl]
    exact (hfirst rfl).append (Accounted.all s around fun p hp => hpart p (List.mem_cons_of_mem _ hp))
  | call span callee args =>
    exact Accounted.call s around (hpart callee List.mem_cons_self) fun a ha => h a (List.mem_cons_of_mem _ ha)
  | assign _ isPlain target value =>
    have hvalue := hpart value (List.mem_cons_of_mem _ List.mem_cons_self)
    cases isPlain with
    | true =>
      exact Accounted.assign s around (hshaped.part List.mem_cons_self) (hpart target List.mem_cons_self) hvalue
    | false =>
      rw [held_of_parts rfl rfl, parts, List.flatMap_cons, List.flatMap_singleton]
      exact (hfirst rfl).append (hvalue.passed s around)
  | object => exact Accounted.object s around (fun _ => hshaped.part) hpart
  | property | method =>
    rw [declared, held_of_parts rfl rfl]
    exact Accounted.appendValue s around hpart
  | spread =>
    rw [declared, held_of_parts rfl rfl, parts, List.flatMap_singleton]
    exact hfirst rfl
  | function | arrow =>
    rw [declared, held_of_some rfl]
    exact Accounted.appendAll s around hpart
  | functionDecl _ _ f =>
    rw [declared, held_of_none rfl, roles, List.flatMap_singleton]
    exact (hpart f List.mem_cons_self).claimed s around (.of_function (fun _ => rfl) hshaped.self)
  | varDecl =>
    rw [declared, held_varDecl]
    exact Accounted.names s around _ h
  | declarator =>
    rw [declared, held_of_parts rfl rfl]
    exact (hfirst rfl).append (Accounted.option s around fun p hp => hpart p (List.mem_cons_of_mem _ hp))
  | statement span =>
    rw [declared, held_of_parts rfl rfl]
    exact Accounted.all { s with statementEnd := some span.stop } around hpart
  | plain =>
    rw [declared, held_of_parts rfl rfl]
    exact Accounted.all s around hpart
  | name | this | string =>
    rw [held_of_parts rfl rfl]
    exact .nil

theorem declaredAs_accounts (s : Scope) (around : List Span) {bound : Bound} {role : Role} {n : Node}
    (hshaped : n.Shaped) (h : ∀ p ∈ n.parts, ∀ m ∈ p.subtree, Accounted m)
    (hclaimed : Claimed s.withAnonymous bound role n) :
    (declaredAs s bound n).Accounts s.withAnonymous around (n.held s.withAnonymous around role) := by
  have hpart (p : Node) (hp : p ∈ n.parts) : Accounted p := h p hp p p.self_mem_subtree
  cases hclaimed with
  | paren hinner =>
    rw [declaredAs, held_paren]
    exact (hpart _ List.mem_cons_self).claimed s around hinner
  | assign htarget hvalue =>
    rw [declaredAs, held_assign, held_of_targetName? (hshaped.part List.mem_cons_self) htarget, htarget,
      List.nil_append]
    exact (hpart _ (List.mem_cons_of_mem _ List.mem_cons_self)).claimed s around hvalue
  | @function _ span named params body hindexed =>
    rw [declaredAs]
    refine .enclose (f := ⟨role, named, span, around⟩) rfl hindexed fun inner hinner => ?_
    rw [← hinner]
    exact Accounted.appendAll inner (span :: around) hpart
  | @arrow _ span params body hindexed =>
    rw [declaredAs]
    refine .enclose (f := ⟨role, false, span, around⟩) rfl hindexed fun inner hinner => ?_
    rw [← hinner]
    exact Accounted.appendAll inner (span :: around) hpart
  | object hroots hroot =>
    rw [declaredAs, held_object, hroots, hroot]
    exact Accounted.members s around _ (fun _ => hshaped.part) h

/-- Every node of a grammatical tree is accounted for. -/
theorem Accounted.of_shaped {n : Node} (hshaped : n.Shaped) : Accounted n := by
  induction n using induction_below with
  | step n ih =>
    have hbelow (p : Node) (hp : p ∈ n.parts) (m : Node) (hm : m ∈ p.subtree) : Accounted m :=
      ih p hp m hm fun q hq => hshaped q (mem_subtree_of_part hp (mem_subtree_trans hm hq))
    exact ⟨fun s around => declared_accounts s around hshaped hbelow,
      fun s around _ _ => declaredAs_accounts s around hshaped hbelow⟩

/-- Declarations and the values of declared names are always indexed. -/
theorem Role.indexes_of_declared {withAnonymous named : Bool} {role : Role}
    (h : role = .declaration ∨ role = .initial) : role.indexes withAnonymous named = true := by
  rcases h with rfl | rfl <;> rfl

/-- A function that is accountable is either indexed or reported. -/
theorem Role.indexes_iff {withAnonymous named : Bool} {role : Role} (h : role.accountable = true) :
    role.indexes withAnonymous named = true ↔ role.report? = none := by
  cases role with
  | assigned bound place => cases bound <;> simp [indexes, report?]
  | keyed known rooted place =>
    cases known with
    | true => cases rooted <;> simp [indexes, report?]
    | false => cases h
  | declaration | initial => simp [indexes, report?]
  | _ => cases h

/-- Of all others only arguments without a name are ever indexed. -/
theorem Role.accountable_of_indexes {withAnonymous named : Bool} {role : Role}
    (h : role.indexes withAnonymous named = true) :
    role.accountable = true ∨ withAnonymous = true ∧ role = .argument ∧ named = false := by
  cases role with
  | keyed => exact .inl (Bool.and_eq_true_iff.mp h).1
  | argument =>
    obtain ⟨hwith, hnamed⟩ := Bool.and_eq_true_iff.mp h
    exact .inr ⟨hwith, rfl, by simpa using hnamed⟩
  | declaration | initial | assigned => exact .inl rfl
  | _ => cases h

theorem Role.holder?_of_report? {role : Role} {subject : DiagnosticKind × Span}
    (h : role.report? = some subject) : role.holder? = some subject := by
  cases role with
  | assigned bound =>
    cases bound with
    | true => cases h
    | false => exact h
  | keyed _ rooted =>
    cases rooted with
    | true => cases h
    | false => exact h
  | _ => cases h

namespace HeldFunction

variable {withAnonymous : Bool} {fs : List HeldFunction} {f : HeldFunction}

/-- Where no two functions have one range, each range counts once if its function is indexed. -/
theorem count_indexed (hdistinct : (fs.map (·.range)).Nodup) (hf : f ∈ fs) :
    ((fs.filter (·.indexed withAnonymous)).map (·.range)).count f.range =
      if f.indexed withAnonymous then 1 else 0 := by
  split
  · rename_i hindexed
    refine List.count_eq_one_of_mem ((List.filter_sublist.map _).nodup hdistinct) ?_
    exact List.mem_map_of_mem (List.mem_filter.mpr ⟨hf, hindexed⟩)
  · rename_i hindexed
    refine List.count_eq_zero.mpr fun hmem => hindexed ?_
    obtain ⟨g, hg, hrange⟩ := List.mem_map.mp hmem
    obtain ⟨hg, hindexed'⟩ := List.mem_filter.mp hg
    rwa [← List.inj_on_of_nodup_map hdistinct hg hf hrange]

/-- Where no two functions are held in one place, each subject counts once if its function is reported. -/
theorem count_reported (hdistinct : (fs.filterMap (·.role.holder?)).Nodup) (hf : f ∈ fs) :
    (reports fs).countP (fun subject => f.role.holder? == some subject) =
      if f.role.report? = none then 0 else 1 := by
  have hapart := List.pairwise_filterMap.mp hdistinct
  have hnodup : (reports fs).Nodup := List.pairwise_filterMap.mpr <| hapart.imp
    fun h b hb b' hb' => h b (Role.holder?_of_report? hb) b' (Role.holder?_of_report? hb')
  cases hholder : f.role.holder? with
  | none =>
    have hreport : f.role.report? = none := by
      cases hreport : f.role.report? with
      | none => rfl
      | some subject =>
        rw [Role.holder?_of_report? hreport] at hholder
        cases hholder
    rw [if_pos hreport]
    exact List.countP_eq_zero.mpr fun _ _ h => nomatch h
  | some subject =>
    have hcount : (reports fs).countP (fun other => some subject == some other) =
        (reports fs).count subject := by
      rw [List.count]
      refine List.countP_congr fun other _ => ?_
      rw [beq_iff_eq, beq_iff_eq, Option.some.injEq, eq_comm]
    rw [hcount]
    split
    · rename_i hreport
      refine List.count_eq_zero.mpr fun hmem => ?_
      obtain ⟨g, hg, hsubject⟩ := List.mem_filterMap.mp hmem
      have hsame : f = g := by
        have honly : fs.Pairwise fun a b =>
            a.role.holder? = some subject → b.role.holder? = some subject → a = b :=
          hapart.imp fun h ha hb => absurd rfl (h subject ha subject hb)
        refine honly.forall_of_forall_of_flip (fun _ _ _ _ => rfl) ?_ hf hg hholder
          (Role.holder?_of_report? hsubject)
        exact honly.imp fun h hb ha => (h ha hb).symm
      rw [hsame, hsubject] at hreport
      cases hreport
    · rename_i hreport
      obtain ⟨reported, hreported⟩ := Option.ne_none_iff_exists'.mp hreport
      have hsame := Role.holder?_of_report? hreported
      rw [hholder] at hsame
      cases hsame
      exact List.count_eq_one_of_mem hnodup (List.mem_filterMap.mpr ⟨f, hf, hreported⟩)

end HeldFunction

namespace Discovery

theorem ofProgram_accounts {program : Program} {file source : String} {withAnonymous : Bool}
    {found : Discovery} (hshaped : program.Shaped)
    (hfound : Discovery.ofProgram program file source withAnonymous = .ok found) :
    found.root.children.flatMap (Leaf.places []) =
      HeldFunction.places withAnonymous (program.functions withAnonymous) ∧
    (found.diagnostics.map Diagnostic.subject).Perm
      (HeldFunction.reports (program.functions withAnonymous)) := by
  let scope : Scope := ⟨file, source.toList, withAnonymous, Path.ofScript file, none⟩
  have haccounts := Accounted.all scope [] fun n hn => .of_shaped (hshaped n hn)
  rw [ofProgram] at hfound
  cases hrun : (declaredAll scope program.body).run ⟨0, []⟩ with
  | error e =>
    rw [hrun] at hfound
    cases hfound
  | ok result =>
    obtain ⟨children, tally⟩ := result
    obtain ⟨hplaces, more, hmore, hreports⟩ := haccounts _ _ _ hrun
    rw [hrun] at hfound
    cases hfound
    rw [List.nil_append] at hmore
    exact ⟨hplaces, hmore ▸ hreports⟩

/-- Every function of a script is accounted for. Leaves are made for the functions whose role indexes
    them, each under the innermost of these that is around it, and for nothing else; reports are made
    about what holds the functions whose role asks for one, one for each function. Declarations and the
    values of declared names are always indexed; a function that is assigned, or that an object holds
    under a known key, is either indexed or reported; and of all others only arguments without a name
    are indexed, on demand. Where functions differ in their ranges and in what holds them, the leaves of
    the range of such a function and the reports about what holds it are one in all. Nothing is assumed
    of the places in the tree otherwise. -/
theorem ofProgram_accounting {program : Program} {file source : String} {withAnonymous : Bool}
    {found : Discovery} (hshaped : program.Shaped)
    (hfound : Discovery.ofProgram program file source withAnonymous = .ok found) :
    (program.functions withAnonymous).map (·.range) = program.functionSpans ∧
    found.root.children.flatMap (Leaf.places []) =
      HeldFunction.places withAnonymous (program.functions withAnonymous) ∧
    (found.diagnostics.map Diagnostic.subject).Perm
      (HeldFunction.reports (program.functions withAnonymous)) ∧
    (∀ f ∈ program.functions withAnonymous,
      (f.role = .declaration ∨ f.role = .initial → f.indexed withAnonymous = true) ∧
      (f.role.accountable = true → (f.indexed withAnonymous = true ↔ f.role.report? = none)) ∧
      (f.indexed withAnonymous = true → f.role.accountable = true ∨
        withAnonymous = true ∧ f.role = .argument ∧ f.named = false)) ∧
    (program.functionSpans.Nodup →
      ((program.functions withAnonymous).filterMap (·.role.holder?)).Nodup →
      ∀ f ∈ program.functions withAnonymous, f.role.accountable = true →
        (found.root.children.flatMap Leaf.walk).countP (·.range == f.range) +
          found.diagnostics.countP (fun d => f.role.holder? == some d.subject) = 1) := by
  obtain ⟨hplaces, hreports⟩ := ofProgram_accounts hshaped hfound
  have hranges := program.functions_ranges withAnonymous
  refine ⟨hranges, hplaces, hreports, fun f _ => ?_, fun hdistinct hholders f hf haccountable => ?_⟩
  · exact ⟨Role.indexes_of_declared, Role.indexes_iff, Role.accountable_of_indexes⟩
  have hleaves : (found.root.children.flatMap Leaf.walk).map (·.range) =
      ((program.functions withAnonymous).filter (·.indexed withAnonymous)).map (·.range) := by
    calc (found.root.children.flatMap Leaf.walk).map (·.range)
        = (found.root.children.flatMap (Leaf.places [])).map Prod.fst := by
          rw [List.map_flatMap, List.map_flatMap]
          exact List.flatMap_congr fun leaf _ => (leaf.places_ranges []).symm
      _ = _ := by
          rw [hplaces, HeldFunction.places, List.map_map]
          rfl
  have hindexed : (found.root.children.flatMap Leaf.walk).countP (·.range == f.range) =
      if f.indexed withAnonymous then 1 else 0 := by
    rw [← HeldFunction.count_indexed (hranges ▸ hdistinct) hf, ← hleaves, List.count, List.countP_map]
    rfl
  have hreported : found.diagnostics.countP (fun d => f.role.holder? == some d.subject) =
      if f.role.report? = none then 0 else 1 := by
    rw [← HeldFunction.count_reported hholders hf, ← hreports.countP_eq, List.countP_map]
    rfl
  rw [hindexed, hreported]
  by_cases hindex : f.indexed withAnonymous = true
  · rw [if_pos hindex, if_pos ((Role.indexes_iff haccountable).mp hindex)]
  · rw [if_neg hindex, if_neg fun hnone => hindex ((Role.indexes_iff haccountable).mpr hnone)]

end Discovery

namespace Sample

def elementSource : String := "function f()\x7ba[0]=()=>1\x7d"

/-- The assignment in the source, whose target has no name. -/
def elementAssignment : Node :=
  .assign ⟨13, 23⟩ true (.member ⟨13, 17⟩ (.name ⟨13, 14⟩ "a") none [.plain .literal ⟨15, 16⟩ []])
    (.arrow ⟨18, 23⟩ [] [.plain .literal ⟨22, 23⟩ []])

def elementProgram : Program :=
  ⟨[.statement ⟨0, 24⟩ [.functionDecl ⟨0, 24⟩ "f"
    (.function ⟨0, 24⟩ false [] [.statement ⟨13, 23⟩ [elementAssignment]])]]⟩

theorem elementProgram_shaped : elementProgram.Shaped := by
  intro n hn
  rw [List.mem_singleton.mp hn, Node.Shaped]
  simp only [elementAssignment, Node.subtree_eq, Node.parts, List.flatMap_cons, List.flatMap_nil,
    List.append_nil, List.nil_append]
  decide

theorem elementProgram_functions : elementProgram.functions false =
    [⟨.declaration, false, ⟨0, 24⟩, []⟩, ⟨.assigned false ⟨13, 23⟩, false, ⟨18, 23⟩, [⟨0, 24⟩]⟩] := by
  decide +kernel

end Sample

theorem Discovery.ofProgram_accounting_element :
    ∃ found, Discovery.ofProgram Sample.elementProgram "a.js" Sample.elementSource false = .ok found ∧
      found.root.children.flatMap (Leaf.places []) = [(⟨0, 24⟩, [])] ∧
      (found.diagnostics.map Diagnostic.subject).Perm [(.unsupportedAssignmentTarget, ⟨13, 23⟩)] := by
  obtain ⟨found, hfound⟩ : ∃ found,
      Discovery.ofProgram Sample.elementProgram "a.js" Sample.elementSource false = .ok found := ⟨_, rfl⟩
  obtain ⟨_, hplaces, hreports, _⟩ := ofProgram_accounting Sample.elementProgram_shaped hfound
  rw [Sample.elementProgram_functions] at hplaces hreports
  exact ⟨found, hfound, hplaces, hreports⟩

end PageProbe
