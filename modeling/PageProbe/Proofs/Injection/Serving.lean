import PageProbe.Execution.Context
import PageProbe.Proofs.Injection.Window

namespace PageProbe

open Text (Bytes)
open Insertion

namespace Insertion

/-- A pass writes down every text whose place it comes by, in one piece. -/
theorem encode_infix_weaveFrom {x : Insertion} {xs : List Insertion} (hx : x ∈ xs) {offset : Nat}
    {body : Bytes} (hlow : offset ≤ x.point) (hhigh : x.point ≤ offset + body.length) :
    Text.encode x.text <:+: weaveFrom xs offset body := by
  have hhere : Text.encode x.text <:+: textsAt xs x.point := by
    rw [textsAt, List.flatMap_def]
    apply List.infix_of_mem_flatten
    exact List.mem_map_of_mem (List.mem_filter.mpr ⟨hx, decide_eq_true rfl⟩)
  induction body generalizing offset with
  | nil =>
    obtain rfl : x.point = offset := Nat.le_antisymm hhigh hlow
    exact hhere
  | cons b bs ih =>
    rw [weaveFrom]
    by_cases hfirst : x.point = offset
    · have hfront : Text.encode x.text <:+:
          if b = 0x3B then b :: textsAt xs offset else textsAt xs offset ++ [b] := by
        rw [hfirst] at hhere
        split
        · exact hhere.trans (List.suffix_cons b _).isInfix
        · exact hhere.trans (List.prefix_append _ _).isInfix
      exact hfront.trans (List.prefix_append _ _).isInfix
    · rw [List.length_cons] at hhigh
      exact (ih (by omega) (by omega)).trans (List.suffix_append _ _).isInfix

end Insertion

namespace PageResource

variable (r : PageResource)

/-- The pieces of a body make it up, and are of the same script. -/
theorem chunksFrom_pieces (size offset : Nat) (rest : Bytes) :
    (r.chunksFrom size offset rest).flatMap (·.data) = rest ∧
      ∀ c ∈ r.chunksFrom size offset rest, c.uri = r.uri ∧ c.contentType = r.contentType := by
  induction hn : rest.length using Nat.strongRecOn generalizing offset rest with
  | _ n ih =>
    by_cases hrest : rest = []
    · rw [hrest, chunksFrom_nil]
      exact ⟨rfl, fun _ hc => absurd hc List.not_mem_nil⟩
    · have hpos := List.length_pos_iff.mpr hrest
      obtain ⟨hdata, hsame⟩ := ih _ (by rw [List.length_drop]; omega) (offset + (size + 1))
        (rest.drop (size + 1)) rfl
      rw [r.chunksFrom_eq_pieceAt_cons size offset hrest]
      constructor
      · rw [List.flatMap_cons, hdata, pieceAt_data, List.take_append_drop]
      · intro c hc
        rcases List.mem_cons.mp hc with rfl | hc
        · exact ⟨rfl, rfl⟩
        · exact hsame c hc

/-- Wherever a body is cut, some piece covers a place in it, and none covers a place behind it. -/
theorem exists_covers_chunksFrom (size : Nat) {offset point : Nat} {rest : Bytes} (hrest : rest ≠ [])
    (hoffset : offset ≤ point) :
    (∃ c ∈ r.chunksFrom size offset rest, c.covers point = true) ↔ point ≤ offset + rest.length := by
  induction hn : rest.length using Nat.strongRecOn generalizing offset rest with
  | _ n ih =>
    subst hn
    have hpos := List.length_pos_iff.mpr hrest
    rw [r.chunksFrom_eq_pieceAt_cons size offset hrest]
    simp only [List.mem_cons, exists_eq_or_imp]
    by_cases hlast : rest.drop (size + 1) = []
    · rw [r.covers_pieceAt_of_last hlast hoffset, hlast, chunksFrom_nil]
      simp
    · have hlen := length_take_of_more hlast
      have hsplit : (rest.take (size + 1)).length + (rest.drop (size + 1)).length = rest.length := by
        rw [← List.length_append, List.take_append_drop]
      rw [r.covers_pieceAt_of_more hlast hoffset]
      by_cases hnow : point < offset + (size + 1)
      · exact ⟨fun _ => by omega, fun _ => .inl hnow⟩
      · rw [ih _ (by omega) hlast (Nat.le_of_not_lt hnow) rfl]
        omega

end PageResource

/-- Whether a resource is one of the target's script, with the injection point in it. -/
def InjectionTarget.LiesIn (target : InjectionTarget) (r : PageResource) : Prop :=
  ContentType.isScript r.contentType = true ∧ scriptName r.uri = target.script ∧ r.body ≠ [] ∧
    target.point ≤ r.body.length

theorem InjectionTarget.liesIn_iff (target : InjectionTarget) (r : PageResource) (size : Nat) :
    target.LiesIn r ↔
      ∃ c ∈ r.chunks size, target.concerns c = true ∧ c.covers target.point = true := by
  have hconcerns (c : Chunk) (hc : c ∈ r.chunks size) : target.concerns c = true ↔
      ContentType.isScript r.contentType = true ∧ scriptName r.uri = target.script := by
    obtain ⟨huri, hkind⟩ := (r.chunksFrom_pieces _ _ _).2 c hc
    rw [concerns, huri, hkind, Bool.and_eq_true, beq_iff_eq]
  by_cases hbody : r.body = []
  · rw [PageResource.chunks, hbody, PageResource.chunksFrom_nil]
    constructor
    · intro h
      exact absurd hbody h.2.2.1
    · rintro ⟨_, hc, _⟩
      exact absurd hc List.not_mem_nil
  · have hinside := r.exists_covers_chunksFrom (size - 1) hbody (Nat.zero_le target.point)
    rw [Nat.zero_add] at hinside
    rw [LiesIn, ← hinside]
    constructor
    · rintro ⟨hkind, hname, -, c, hc, hcovers⟩
      exact ⟨c, hc, (hconcerns c hc).mpr ⟨hkind, hname⟩, hcovers⟩
    · rintro ⟨c, hc, hmine, hcovers⟩
      obtain ⟨hkind, hname⟩ := (hconcerns c hc).mp hmine
      exact ⟨hkind, hname, hbody, c, hc, hcovers⟩

namespace Injector

/-- An injector that is armed for a target, with a tuple at the front of its queue and nothing left of
    earlier injections. -/
structure Waits (i : Injector) (target : InjectionTarget) (t : Tuple) : Prop where
  active : i.active = true
  target : i.target = some target
  carried : i.carried = []
  next : i.queue.head? = some t

/-- The piece that covers the injection point gets the harness, and the tuple is gone. -/
theorem Waits.intercept_of_covers {i : Injector} {target : InjectionTarget} {t : Tuple}
    (h : i.Waits target t) {c : Chunk} (hconcerns : target.concerns c = true)
    (hcovers : c.covers target.point = true) :
    (i.intercept c).1.queue = i.queue.tail ∧ (i.intercept c).1.active = false ∧
      Text.encode (target.harness.render t) <:+: pieceOf c (i.intercept c).2 := by
  obtain ⟨rest, hqueue⟩ : ∃ rest, i.queue = t :: rest := List.head?_eq_some_iff.mp h.next
  obtain ⟨hstate, hpiece⟩ := intercept_of_concerns h.target hconcerns
  rw [arm_of_covers h.active hqueue hcovers] at hstate hpiece
  refine ⟨?_, ?_, ?_⟩
  · rw [hstate, hqueue]
    rfl
  · rw [hstate]
    rfl
  · have hmem : (⟨target.point, target.harness.render t⟩ : Insertion) ∈
        (target.insertions t).filter fun x => c.covers x.point :=
      List.mem_filter.mpr ⟨List.mem_cons_self, hcovers⟩
    have hplaces (x : Insertion) (hx : x ∈ (target.insertions t).filter fun x => c.covers x.point) :
        c.offset ≤ x.point ∧ x.point ≤ c.offset + c.data.length := by
      have hin := (Chunk.covers_iff c x.point).mp (List.mem_filter.mp hx).2
      rw [Chunk.stop] at hin
      omega
    rw [hpiece, applyAll_eq_weaveFrom
      (fun x hx => target.insertions_startPlain t x (List.mem_filter.mp hx).1) hplaces]
    exact encode_infix_weaveFrom hmem (hplaces _ hmem).1 (hplaces _ hmem).2

theorem interceptAll_queue_of_inactive {i : Injector} (hinactive : i.active = false) (cs : List Chunk) :
    (i.interceptAll cs).1.queue = i.queue ∧ (i.interceptAll cs).1.active = false := by
  induction cs generalizing i with
  | nil => exact ⟨rfl, hinactive⟩
  | cons c cs ih =>
    obtain ⟨hqueue, hstill⟩ := intercept_of_inactive hinactive c
    obtain ⟨hlater, hend⟩ := ih hstill
    exact ⟨hlater.trans hqueue, hend⟩

theorem Waits.interceptAll_of_uncovered {i : Injector} {target : InjectionTarget} {t : Tuple}
    (h : i.Waits target t) {cs : List Chunk}
    (huncovered : ∀ c ∈ cs, ¬ (target.concerns c = true ∧ c.covers target.point = true)) :
    i.interceptAll cs = (i, cs.flatMap (·.data)) := by
  induction cs with
  | nil => rfl
  | cons c cs ih =>
    have hfirst := intercept_of_uncovered h.target h.carried (huncovered c List.mem_cons_self)
    rw [interceptAll_cons, hfirst, ih fun c' hc' => huncovered c' (List.mem_cons_of_mem c hc')]
    rfl

/-- It does not matter at which piece the injection point comes by. -/
theorem Waits.interceptAll_of_covers {i : Injector} {target : InjectionTarget} {t : Tuple}
    (h : i.Waits target t) {cs : List Chunk}
    (hcovers : ∃ c ∈ cs, target.concerns c = true ∧ c.covers target.point = true) :
    (i.interceptAll cs).1.queue = i.queue.tail ∧ (i.interceptAll cs).1.active = false ∧
      Text.encode (target.harness.render t) <:+: (i.interceptAll cs).2 := by
  induction cs with
  | nil =>
    obtain ⟨_, hc, _⟩ := hcovers
    exact absurd hc List.not_mem_nil
  | cons c cs ih =>
    rw [interceptAll_cons]
    by_cases hfirst : target.concerns c = true ∧ c.covers target.point = true
    · obtain ⟨hqueue, hdone, hharness⟩ := h.intercept_of_covers hfirst.1 hfirst.2
      obtain ⟨hlater, hend⟩ := interceptAll_queue_of_inactive hdone cs
      exact ⟨hlater.trans hqueue, hend, hharness.trans (List.prefix_append _ _).isInfix⟩
    · obtain ⟨c', hc', hlater⟩ := hcovers
      have hc' : c' ∈ cs := (List.mem_cons.mp hc').resolve_left fun heq => hfirst (heq ▸ hlater)
      obtain ⟨hqueue, hend, hharness⟩ := ih ⟨c', hc', hlater⟩
      rw [intercept_of_uncovered h.target h.carried hfirst]
      exact ⟨hqueue, hend, hharness.trans (List.suffix_append _ _).isInfix⟩

/-- Passes resources one after another, each in pieces of a size. -/
def serve (i : Injector) (size : Nat) : List PageResource → Injector × List Bytes
  | [] => (i, [])
  | r :: rest =>
    let (i, body) := i.stream r size
    let (i, bodies) := i.serve size rest
    (i, body :: bodies)

theorem serve_cons (i : Injector) (size : Nat) (r : PageResource) (rest : List PageResource) :
    i.serve size (r :: rest) =
      (((i.stream r size).1.serve size rest).1,
        (i.stream r size).2 :: ((i.stream r size).1.serve size rest).2) := rfl

theorem serve_queue_of_inactive {i : Injector} (hinactive : i.active = false) (size : Nat)
    (resources : List PageResource) :
    (i.serve size resources).1.queue = i.queue ∧ (i.serve size resources).1.active = false := by
  induction resources generalizing i with
  | nil => exact ⟨rfl, hinactive⟩
  | cons r rest ih =>
    obtain ⟨hqueue, hstill⟩ := interceptAll_queue_of_inactive hinactive (r.chunks size)
    obtain ⟨hlater, hend⟩ := ih hstill
    exact ⟨hlater.trans hqueue, hend⟩

theorem Waits.stream_of_not_liesIn {i : Injector} {target : InjectionTarget} {t : Tuple}
    (h : i.Waits target t) {r : PageResource} (hr : ¬ target.LiesIn r) (size : Nat) :
    i.stream r size = (i, r.body) := by
  rw [target.liesIn_iff r size] at hr
  rw [stream, h.interceptAll_of_uncovered fun c hc hcovers => hr ⟨c, hc, hcovers⟩]
  exact congrArg (i, ·) (r.chunksFrom_pieces _ _ _).1

/-- Without a resource that the injection point lies in, the tuple stays and nothing is changed. -/
theorem Waits.serve_of_not_liesIn {i : Injector} {target : InjectionTarget} {t : Tuple}
    (h : i.Waits target t) {resources : List PageResource} (hnone : ∀ r ∈ resources, ¬ target.LiesIn r)
    (size : Nat) : i.serve size resources = (i, resources.map (·.body)) := by
  induction resources with
  | nil => rfl
  | cons r rest ih =>
    rw [serve_cons, h.stream_of_not_liesIn (hnone r List.mem_cons_self),
      ih fun r' hr' => hnone r' (List.mem_cons_of_mem r hr')]
    rfl

/-- One resource that the injection point lies in is enough for the tuple to be taken, and its harness is
    in the body of such a resource. -/
theorem Waits.serve_of_liesIn {i : Injector} {target : InjectionTarget} {t : Tuple}
    (h : i.Waits target t) {resources : List PageResource} (hsome : ∃ r ∈ resources, target.LiesIn r)
    (size : Nat) :
    (i.serve size resources).1.queue = i.queue.tail ∧ (i.serve size resources).1.active = false ∧
      ∃ r body, (r, body) ∈ resources.zip (i.serve size resources).2 ∧ target.LiesIn r ∧
        Text.encode (target.harness.render t) <:+: body := by
  induction resources with
  | nil =>
    obtain ⟨_, hr, _⟩ := hsome
    exact absurd hr List.not_mem_nil
  | cons r rest ih =>
    rw [serve_cons]
    by_cases hfirst : target.LiesIn r
    · obtain ⟨hqueue, hdone, hharness⟩ := h.interceptAll_of_covers ((target.liesIn_iff r size).mp hfirst)
      obtain ⟨hlater, hend⟩ := serve_queue_of_inactive hdone size rest
      exact ⟨hlater.trans hqueue, hend, r, _, List.mem_cons_self, hfirst, hharness⟩
    · obtain ⟨r', hr', hlies⟩ := hsome
      have hr' : r' ∈ rest := (List.mem_cons.mp hr').resolve_left fun heq => hfirst (heq ▸ hlies)
      obtain ⟨hqueue, hend, r'', body, hbody, hharness⟩ := ih ⟨r', hr', hlies⟩
      rw [h.stream_of_not_liesIn hfirst]
      exact ⟨hqueue, hend, r'', body, List.mem_cons_of_mem _ hbody, hharness⟩

end Injector

namespace Fetching

theorem run_fetchAll (got : Bytes) (cs : List Chunk) (next : Bytes → Fetching α) (i : Injector) :
    (fetchAll got cs next).run i =
      (next (got ++ (i.interceptAll cs).2)).run (i.interceptAll cs).1 := by
  induction cs generalizing got i with
  | nil => rw [fetchAll, Injector.interceptAll, List.append_nil]
  | cons c cs ih =>
    rw [fetchAll, run, Injector.interceptAll_cons]
    dsimp only
    rw [ih, List.append_assoc]

/-- A context that fetches resources gets them as the injector serves them. -/
theorem run_fetchBodies (size : Nat) (bodies : List Bytes) (resources : List PageResource)
    (next : List Bytes → Fetching α) (i : Injector) :
    (fetchBodies size bodies resources next).run i =
      (next (bodies ++ (i.serve size resources).2)).run (i.serve size resources).1 := by
  induction resources generalizing bodies i with
  | nil => rw [fetchBodies, Injector.serve, List.append_nil]
  | cons r rest ih =>
    rw [fetchBodies, run_fetchAll, ih, Injector.serve_cons, Injector.stream, List.nil_append,
      List.append_assoc]
    rfl

end Fetching
end PageProbe
