import FrameLisp.Proofs.Definition
import FrameLisp.Proofs.Knot

/-!
The laws of environments, for names that may be repeated. A frame in which names have been bound
has its old names first, in order, and then the others where they occur first; each of the names has
the value of its last occurrence (`Frame.names_insertAll_zip`, `Frame.get?_insertAll_zip`).
Resolving a name in an extended environment, extending an environment in place, and filling a frame
of placeholders afterwards follow from these two equations (`environment_laws`).
-/
namespace FrameLisp

/-! ## Bindings one after the other -/

namespace Assoc

variable {α β : Type} [DecidableEq α]

/-- Keys that are not there yet are added in the order in which they occur first. -/
theorem keys_insertAll (entries pairs : List (α × β)) :
    keys (insertAll entries pairs) =
      keys entries ++ ((keys pairs).filter (· ∉ keys entries)).eraseDups := by
  induction pairs generalizing entries with
  | nil => simp [insertAll, keys]
  | cons pair pairs ih =>
    obtain ⟨key, value⟩ := pair
    have step : keys (insertAll entries ((key, value) :: pairs)) = _ :=
      ih (insert key value entries)
    have next : keys ((key, value) :: pairs) = key :: keys pairs := rfl
    rw [step, keys_insert, next]
    by_cases there : key ∈ keys entries
    · rw [if_pos there, List.filter_cons_of_neg (by simpa using there)]
    · have others : (keys pairs).filter (· ∉ keys entries ++ [key]) =
          ((keys pairs).filter (· ∉ keys entries)).filter fun other => !other == key := by
        rw [List.filter_filter]
        refine List.filter_congr fun other _ => ?_
        by_cases same : other = key <;> simp [same]
      rw [if_neg there, List.filter_cons_of_pos (by simpa using there), List.eraseDups_cons, others,
        List.append_assoc, List.singleton_append]

/-- Each key has the value of its last occurrence. -/
theorem get?_insertAll (key : α) (entries pairs : List (α × β)) :
    get? key (insertAll entries pairs) = (get? key pairs.reverse).or (get? key entries) := by
  induction pairs generalizing entries with
  | nil => rfl
  | cons pair pairs ih =>
    obtain ⟨first, value⟩ := pair
    have step : get? key (insertAll entries ((first, value) :: pairs)) = _ :=
      ih (insert first value entries)
    have last : get? key ((first, value) :: pairs).reverse =
        (get? key pairs.reverse).or (get? key [(first, value)]) := by
      rw [List.reverse_cons]
      exact List.lookup_append
    rw [step, get?_insert, last, Option.or_assoc, get?_cons]
    by_cases same : key = first <;> simp [same, get?]

theorem get?_eq_none_iff {key : α} {entries : List (α × β)} :
    get? key entries = none ↔ key ∉ keys entries := by
  rw [get?, List.lookup_eq_none_iff, keys, List.mem_map]
  grind

/-- Entries without repeated keys are known by their keys, in order, and by what each key is found
    to have. -/
theorem eq_of_get? {entries others : List (α × β)} (distinct : (keys entries).Nodup)
    (same : keys entries = keys others) (found : ∀ key, get? key entries = get? key others) :
    entries = others := by
  induction entries generalizing others with
  | nil =>
    cases others with
    | nil => rfl
    | cons => cases same
  | cons entry entries ih =>
    obtain ⟨key, value⟩ := entry
    match others with
    | [] => cases same
    | (other, value') :: others =>
      obtain ⟨rfl, later⟩ := List.cons.inj same
      obtain ⟨absent, distinct⟩ := List.nodup_cons.mp distinct
      have here := found key
      simp only [get?_cons, if_true, Option.some.injEq] at here
      subst here
      refine congrArg _ (ih distinct later fun k => ?_)
      by_cases first : k = key
      · subst first
        have absent' : k ∉ keys others := fun member => absent (later.symm ▸ member)
        rw [get?_eq_none_iff.mpr absent, get?_eq_none_iff.mpr absent']
      · have there := found k
        simpa [get?_cons, first] using there

end Assoc

/-- The argument of the last occurrence of a name among the parameters. -/
def lastArg? (params : List Symbol) (args : List Value) (x : Symbol) : Option Value :=
  Assoc.get? x (params.zip args).reverse

namespace Frame

variable {params : List Symbol} {args : List Value} {x : Symbol} {f : Frame}

theorem lastArg?_eq_none_iff (lengths : params.length = args.length) :
    lastArg? params args x = none ↔ x ∉ params := by
  have keys : Assoc.keys (params.zip args).reverse = params.reverse := by
    rw [Assoc.keys, List.map_reverse]
    exact congrArg List.reverse (keys_zip lengths)
  rw [lastArg?, Assoc.get?_eq_none_iff, keys, List.mem_reverse]

theorem exists_lastArg? (lengths : params.length = args.length) (member : x ∈ params) :
    ∃ v, lastArg? params args x = some v := by
  cases found : lastArg? params args x with
  | some v => exact ⟨v, rfl⟩
  | none => exact absurd member ((lastArg?_eq_none_iff lengths).mp found)

theorem names_insertAll_zip (f : Frame) (lengths : params.length = args.length) :
    (f.insertAll (params.zip args)).names =
      f.names ++ (params.filter (· ∉ f.names)).eraseDups := by
  have keys := Assoc.keys_insertAll f.entries (params.zip args)
  rwa [keys_zip lengths] at keys

theorem get?_insertAll_zip (f : Frame) (params : List Symbol) (args : List Value) (x : Symbol) :
    (f.insertAll (params.zip args)).get? x = (lastArg? params args x).or (f.get? x) :=
  Assoc.get?_insertAll x f.entries (params.zip args)

theorem names_ofPairs_zip (lengths : params.length = args.length) :
    (ofPairs (params.zip args)).names = params.eraseDups := by
  rw [ofPairs, names_insertAll_zip empty lengths]
  simp [empty, names, Assoc.keys]

theorem get?_ofPairs_zip (params : List Symbol) (args : List Value) (x : Symbol) :
    (ofPairs (params.zip args)).get? x = lastArg? params args x := by
  rw [ofPairs, get?_insertAll_zip, get?_empty, Option.or_none]

/-- Binding names again that have all been bound is like binding them at once. -/
theorem insertAll_ofPairs_zip {olds : List Value} (lengths : params.length = args.length)
    (lengths' : params.length = olds.length) :
    (ofPairs (params.zip olds)).insertAll (params.zip args) = ofPairs (params.zip args) := by
  have names : ((ofPairs (params.zip olds)).insertAll (params.zip args)).names =
      (ofPairs (params.zip args)).names := by
    have nothing : params.filter (· ∉ params.eraseDups) = [] := by simp [List.filter_eq_nil_iff]
    rw [names_insertAll_zip _ lengths, names_ofPairs_zip lengths', names_ofPairs_zip lengths,
      nothing, List.eraseDups_nil, List.append_nil]
  have values (x : Symbol) : ((ofPairs (params.zip olds)).insertAll (params.zip args)).get? x =
      (ofPairs (params.zip args)).get? x := by
    rw [get?_insertAll_zip, get?_ofPairs_zip, get?_ofPairs_zip]
    by_cases member : x ∈ params
    · obtain ⟨v, found⟩ := exists_lastArg? lengths member
      rw [found, Option.some_or]
    · rw [(lastArg?_eq_none_iff lengths').mpr member, Option.or_none]
  have distinct := nodup_insertAll (params.zip args) (nodup_ofPairs (params.zip olds))
  exact congrArg Frame.mk (Assoc.eq_of_get? distinct names values)

end Frame

/-! ## Frames in front of others -/

namespace Store

variable {s t : Store} {env inner : EnvRef} {f : FrameRef} {x : Symbol}

/-- With a frame in front of others, a name that the frame binds is found there, and all others
    where they were. -/
theorem find?_of_front (chain : t.chain inner = f :: s.chain env)
    (old : ∀ g ∈ s.chain env, t.frame g = s.frame g) :
    t.find? inner x = if x ∈ (t.frame f).names then some f else s.find? env x := by
  unfold find?
  rw [chain, List.find?_cons]
  by_cases bound : x ∈ (t.frame f).names
  · rw [if_pos bound, Frame.binds_iff.mpr bound]
  · have absent : (t.frame f).binds x = false := by rwa [← Bool.not_eq_true, Frame.binds_iff]
    rw [if_neg bound, absent]
    exact List.find?_congr fun g member => by rw [old g member]

/-- A name that the frame in front does not bind is resolved as without it. -/
theorem resolves_of_front {g : FrameRef} {v : Value} (chain : t.chain inner = f :: s.chain env)
    (old : ∀ g ∈ s.chain env, t.frame g = s.frame g) (absent : x ∉ (t.frame f).names) :
    t.Resolves inner x g v ↔ s.Resolves env x g v := by
  unfold Resolves
  rw [find?_of_front chain old, if_neg absent]
  refine and_congr_right fun found => ?_
  rw [Binds, Binds, old g (find?_eq_some found).1]

theorem lookup_congr (same : ∀ f v, t.Resolves inner x f v ↔ s.Resolves env x f v) :
    t.lookup inner x = s.lookup env x := by
  have binding : t.binding? inner x = s.binding? env x := by
    ext v
    rw [binding?_eq_some_iff, binding?_eq_some_iff]
    exact exists_congr fun f => same f v
  unfold lookup
  rw [binding]

/-- Binding names in the frame that an environment was just extended by is like extending it by the
    frame in which they are bound. -/
theorem assignAll_extend (s : Store) (env : EnvRef) (fr : Frame) (pairs : List (Symbol × Value)) :
    (s.extend env fr).2.assignAll s.nextFrame pairs = (s.extend env (fr.insertAll pairs)).2 := by
  have frames : (s.frames.push fr).modify s.frames.size (·.insertAll pairs) =
      s.frames.push (fr.insertAll pairs) := by grind
  simp only [extend, newFrame, newEnv, assignAll, modifyFrame, nextFrame, chain, frames]

end Store

/-! ## The operations on environments -/

/-- What binding names in a frame leaves of it: the names that it has already keep their places, the
    others are added where they occur first, and the values of the names are the last ones given. -/
structure Frame.Rebinds (old new : Frame) (params : List Symbol) (args : List Value) : Prop where
  names : new.names = old.names ++ (params.filter (· ∉ old.names)).eraseDups
  given : ∀ x ∈ params, new.get? x = lastArg? params args x
  kept : ∀ x, x ∉ params → new.get? x = old.get? x

namespace Eval

variable {env : EnvRef} {params : List Symbol} {args : List Value} {m : Machine}

theorem extendInPlace_of_bind {fr : Frame} (bound : Frame.bind params args = .ok fr) :
    extendInPlace env params args m = .ok () (m.mapStore (·.push env fr)) := by
  unfold extendInPlace
  rw [bound]
  rfl

theorem rebindHead_of_chain {head : FrameRef} {rest : Chain}
    (lengths : params.length = args.length) (chain : m.store.chain env = head :: rest) :
    rebindHead env params args m =
      .ok () (m.mapStore (·.assignAll head (params.zip args))) := by
  have found : m.store.headFor env params args = .ok head :=
    Store.headFor_eq_ok.mpr ⟨lengths, rest, chain⟩
  rw [rebindHead_eq, found]
  rfl

/-- Names that are not as many as their values are refused by every operation, which changes
    nothing. -/
theorem refused_of_lengths (different : params.length ≠ args.length) (env : EnvRef) (m : Machine) :
    Frame.bind params args = .error (.frameArity params args.length) ∧
      extend env params args m = .error (.fault (.frameArity params args.length)) m ∧
      extendInPlace env params args m = .error (.fault (.frameArity params args.length)) m ∧
      rebindHead env params args m =
        .error (.fault (.rebindArity params.length args.length)) m := by
  have refused : Frame.bind params args = .error (.frameArity params args.length) :=
    if_neg different
  have head : m.store.headFor env params args = .error (.rebindArity params.length args.length) :=
    if_neg different
  refine ⟨refused, ?_, ?_, ?_⟩
  · unfold extend
    rw [refused]
    rfl
  · unfold extendInPlace
    rw [refused]
    rfl
  · rw [rebindHead_eq, head]
    rfl

/-- Placeholders that are replaced at once leave no trace. -/
theorem rebindHead_extend (lengths : params.length = args.length) (env : EnvRef) (m : Machine) :
    (do
      let inner ← extend env params (List.replicate params.length .unassigned)
      rebindHead inner params args
      pure inner) m = extend env params args m := by
  have lengths' : params.length = (List.replicate params.length Value.unassigned).length := by simp
  let pending := Frame.ofPairs (params.zip (List.replicate params.length .unassigned))
  have first : extend env params _ m = _ := extend_of_bind (Frame.bind_eq_ok.mpr ⟨lengths', rfl⟩)
  have chain : (m.store.extend env pending).2.chain m.store.nextEnv =
      m.store.nextFrame :: m.store.chain env := (Store.chain_extend ..).trans (if_pos rfl)
  have second := rebindHead_of_chain (m := m.mapStore fun s => (s.extend env _).2) lengths chain
  have store : (m.store.extend env pending).2.assignAll m.store.nextFrame (params.zip args) =
      (m.store.extend env (Frame.ofPairs (params.zip args))).2 := by
    rw [Store.assignAll_extend, Frame.insertAll_ofPairs_zip lengths lengths']
  rw [bind_ok first, bind_ok second, extend_of_bind (Frame.bind_eq_ok.mpr ⟨lengths, rfl⟩)]
  exact congrArg (fun store => EStateM.Result.ok m.store.nextEnv { m with store }) store

end Eval

/-- A store has been extended by an environment with a frame in front of those of another: it
    resolves the parameters to their arguments, in that frame, and all other names as the other one
    does. -/
structure Store.Extended (s : Store) (env : EnvRef) (params : List Symbol) (args : List Value)
    (fr : Frame) (t : Store) : Prop where
  adds : Adds s t
  chain : t.chain s.nextEnv = s.nextFrame :: s.chain env
  frame : t.frame s.nextFrame = fr
  given : ∀ x ∈ params, ∃ v, lastArg? params args x = some v ∧
    t.Resolves s.nextEnv x s.nextFrame v
  others : ∀ x, x ∉ params →
    t.find? s.nextEnv x = s.find? env x ∧ t.lookup s.nextEnv x = s.lookup env x

section
variable {m : Machine} {env : EnvRef} {params : List Symbol} {args : List Value}

theorem Store.extended_extend {s : Store} (linked : s.Linked)
    (lengths : params.length = args.length) (env : EnvRef) :
    s.Extended env params args (Frame.ofPairs (params.zip args))
      (s.extend env (Frame.ofPairs (params.zip args))).2 := by
  have adds : Adds s (s.extend env (Frame.ofPairs (params.zip args))).2 :=
    ⟨fixes_extend s env _, fun f made => (frame_extend ..).trans (if_neg (ne_nextFrame made))⟩
  have chain := chain_extend s env (Frame.ofPairs (params.zip args)) s.nextEnv
  have head := frame_extend s env (Frame.ofPairs (params.zip args)) s.nextFrame
  rw [if_pos rfl] at chain head
  have old : ∀ g ∈ s.chain env, _ := fun g member => adds.frame g (linked env g member)
  have bound (x : Symbol) : x ∈ (Frame.ofPairs (params.zip args)).names ↔ x ∈ params := by
    rw [Frame.names_ofPairs_zip lengths, List.mem_eraseDups]
  refine ⟨adds, chain, head, ?_, ?_⟩
  · intro x member
    obtain ⟨v, found⟩ := Frame.exists_lastArg? lengths member
    refine ⟨v, found, ?_, ?_⟩
    · rw [find?_of_front chain old, head, if_pos ((bound x).mpr member)]
    · rw [Binds, head, Frame.get?_ofPairs_zip, found]
  · intro x absent
    have absent : x ∉ (Frame.ofPairs (params.zip args)).names := fun member =>
      absent ((bound x).mp member)
    rw [← head] at absent
    constructor
    · rw [find?_of_front chain old, if_neg absent]
    · exact lookup_congr fun f v => resolves_of_front chain old absent

/-- A frame that is put in front of an environment itself is seen from it as from one that is
    extended by the frame. -/
theorem Store.resolves_push {s : Store} (there : s.HasEnv env) (fr : Frame) (x : Symbol) :
    (s.push env fr).find? env x = (s.extend env fr).2.find? s.nextEnv x ∧
      (s.push env fr).lookup env x = (s.extend env fr).2.lookup s.nextEnv x := by
  have frames : (s.push env fr).frame = (s.extend env fr).2.frame := by
    funext f
    rw [frame_push, frame_extend]
  have chain : (s.push env fr).chain env = (s.extend env fr).2.chain s.nextEnv := by
    rw [chain_push_self there, chain_extend, if_pos rfl]
  constructor
  · rw [find?, find?, chain, frames]
  · rw [lookup, lookup, binding?, binding?, chain, frames]

theorem Frame.rebinds_insertAll (old : Frame) (lengths : params.length = args.length) :
    old.Rebinds (old.insertAll (params.zip args)) params args where
  names := names_insertAll_zip old lengths
  given := by
    intro x member
    obtain ⟨v, found⟩ := exists_lastArg? lengths member
    rw [get?_insertAll_zip, found, Option.some_or]
  kept := by
    intro x absent
    rw [get?_insertAll_zip, (lastArg?_eq_none_iff lengths).mpr absent, Option.none_or]

end

/-- Names and values that are not as many are refused by every operation on environments, and
    nothing changes. If they are as many, then a frame has the names in order of their first
    occurrences and the values of their last ones; extending an environment puts it in front of that
    environment's frames in a new one, extending in place puts it in front of the environment
    itself, filling placeholders afterwards comes to the same, and binding names again in the first
    frame keeps the names that it has in their places. -/
theorem environment_laws {m : Machine} {env : EnvRef} (linked : m.store.Linked)
    (there : m.store.HasEnv env) (params : List Symbol) (args : List Value) :
    (params.length ≠ args.length → ∃ refusal rebinding : Fault,
      refusal.faultClass = .evaluation .arityMismatch ∧
      rebinding.faultClass = .evaluation .arityMismatch ∧
      Frame.bind params args = .error refusal ∧
      Eval.extend env params args m = .error (.fault refusal) m ∧
      Eval.extendInPlace env params args m = .error (.fault refusal) m ∧
      Eval.rebindHead env params args m = .error (.fault rebinding) m) ∧
    (params.length = args.length → ∃ fr extended pushed,
      Frame.bind params args = .ok fr ∧ fr.names = params.eraseDups ∧
      (∀ x, fr.get? x = lastArg? params args x) ∧
      Eval.extend env params args m = .ok m.store.nextEnv extended ∧
      m.store.Extended env params args fr extended.store ∧
      Eval.extendInPlace env params args m = .ok () pushed ∧
      (∀ x, pushed.store.find? env x = extended.store.find? m.store.nextEnv x ∧
        pushed.store.lookup env x = extended.store.lookup m.store.nextEnv x) ∧
      (do
        let inner ← Eval.extend env params (List.replicate params.length .unassigned)
        Eval.rebindHead inner params args
        pure inner) m = .ok m.store.nextEnv extended ∧
      ∀ head rest, m.store.chain env = head :: rest → ∃ rebound,
        Eval.rebindHead env params args m = .ok () rebound ∧
        (m.store.frame head).Rebinds (rebound.store.frame head) params args ∧
        (∀ f, f ≠ head → rebound.store.frame f = m.store.frame f) ∧
        ∀ other, rebound.store.chain other = m.store.chain other) := by
  constructor
  · intro different
    exact ⟨_, _, rfl, rfl, Eval.refused_of_lengths different env m⟩
  intro lengths
  have bound : Frame.bind params args = .ok (Frame.ofPairs (params.zip args)) :=
    Frame.bind_eq_ok.mpr ⟨lengths, rfl⟩
  have entry : Eval.extend env params args m = _ := Eval.extend_of_bind bound
  refine ⟨_, _, _, bound, Frame.names_ofPairs_zip lengths, Frame.get?_ofPairs_zip params args,
    entry, Store.extended_extend linked lengths env, Eval.extendInPlace_of_bind bound,
    Store.resolves_push there _, (Eval.rebindHead_extend lengths env m).trans entry, ?_⟩
  intro head rest chain
  have made : m.store.HasFrame head := linked env head (chain ▸ List.mem_cons_self)
  have filled : (m.store.assignAll head (params.zip args)).frame head =
      (m.store.frame head).insertAll (params.zip args) := Store.frame_modifyFrame_self made _
  refine ⟨_, Eval.rebindHead_of_chain lengths chain, ?_, ?_, fun _ => rfl⟩
  · show (m.store.frame head).Rebinds ((m.store.assignAll head (params.zip args)).frame head) _ _
    rw [filled]
    exact Frame.rebinds_insertAll _ lengths
  · exact fun f apart => Store.frame_modifyFrame_other apart _

/-- In a global environment a name that is given twice is resolved to its second value, and a frame
    keeps the names that it has in front. -/
theorem environment_laws_repeatedName :
    let env := Machine.empty.newGlobal.1
    let m := Machine.empty.newGlobal.2
    let params : List Symbol := [⟨"x"⟩, ⟨"car"⟩, ⟨"x"⟩]
    let args : List Value := [.int 1, .int 2, .int 3]
    m.store.Linked ∧ m.store.HasEnv env ∧ params.length = args.length ∧
      (∃ inner extended, Eval.extend env params args m = .ok inner extended ∧
        (∃ f, extended.store.Resolves inner ⟨"x"⟩ f (.int 3)) ∧
        extended.store.lookup inner ⟨"cdr"⟩ = m.store.lookup env ⟨"cdr"⟩) ∧
      ∃ rebound, Eval.rebindHead env params args m = .ok () rebound ∧
        (rebound.store.frame ⟨0⟩).names =
          [⟨"nil"⟩, ⟨"null?"⟩, ⟨"cons"⟩, ⟨"car"⟩, ⟨"cdr"⟩, ⟨"list"⟩, ⟨"x"⟩] := by
  intro env m params args
  have reached := Reached.start.global
  have linked : m.store.Linked := reached.wellFormed.1.chains
  have there : m.store.HasEnv env := reached.wellFormed.2 env List.mem_cons_self
  obtain ⟨fr, extended, pushed, _, _, _, entry, front, _, _, _, rebinds⟩ :=
    (environment_laws linked there params args).2 rfl
  obtain ⟨v, last, resolves⟩ := front.given ⟨"x"⟩ List.mem_cons_self
  cases last
  obtain ⟨rebound, run, filled, _⟩ := rebinds ⟨0⟩ [⟨1⟩, ⟨2⟩] rfl
  refine ⟨linked, there, rfl, ⟨_, extended, entry, ⟨_, resolves⟩, ?_⟩, rebound, run, ?_⟩
  · exact (front.others ⟨"cdr"⟩ (by decide)).2
  · rw [filled.names]
    decide

end FrameLisp
