import FrameLisp.Store
import Mathlib.Tactic.Common

/-!
What the operations on frames and on the store change. Every operation has one equation for the
contents of any frame and one for the chain of any environment, whether or not the reference that
is asked about has been given out yet: a reference that has not been is to the empty frame, or to
an environment without frames.
-/
namespace FrameLisp

attribute [ext] FrameRef EnvRef

namespace Assoc

variable {α β : Type} [DecidableEq α] {key : α} {value : β} {entries : List (α × β)}

theorem mem_of_get? (found : get? key entries = some value) : (key, value) ∈ entries := by
  induction entries with
  | nil => simp [get?] at found
  | cons entry rest ih =>
    obtain ⟨first, other⟩ := entry
    rw [get?_cons] at found
    split at found
    · rename_i here
      cases found
      simp [here]
    · exact List.mem_cons_of_mem _ (ih found)

theorem get?_of_mem (distinct : (keys entries).Nodup) (member : (key, value) ∈ entries) :
    get? key entries = some value := by
  induction entries with
  | nil => cases member
  | cons entry rest ih =>
    obtain ⟨first, other⟩ := entry
    obtain ⟨absent, distinct⟩ := List.nodup_cons.mp distinct
    rw [get?_cons]
    rcases List.mem_cons.mp member with here | later
    · cases here
      exact if_pos rfl
    · have apart : key ≠ first := by
        rintro rfl
        exact absent (List.mem_map.mpr ⟨_, later, rfl⟩)
      rw [if_neg apart]
      exact ih distinct later

end Assoc

namespace Frame

variable {f : Frame} {x y : Symbol} {v : Value}

theorem get?_insert (f : Frame) (x y : Symbol) (v : Value) :
    (f.insert x v).get? y = if y = x then some v else f.get? y :=
  Assoc.get?_insert x y v f.entries

theorem names_insert (f : Frame) (x : Symbol) (v : Value) :
    (f.insert x v).names = if x ∈ f.names then f.names else f.names ++ [x] :=
  Assoc.keys_insert x v f.entries

theorem names_insert_of_mem (bound : x ∈ f.names) : (f.insert x v).names = f.names := by
  rw [names_insert, if_pos bound]

theorem mem_names_insert : y ∈ (f.insert x v).names ↔ y = x ∨ y ∈ f.names := by
  rw [names_insert]
  split
  · rename_i bound
    constructor
    · exact .inr
    · rintro (rfl | h)
      · exact bound
      · exact h
  · simp [or_comm]

/-- A name is among the names of a frame exactly if it has a value there. -/
theorem mem_names_iff : x ∈ f.names ↔ ∃ v, f.get? x = some v := by
  obtain ⟨entries⟩ := f
  induction entries with
  | nil => simp [names, get?, Assoc.keys, Assoc.get?]
  | cons entry rest ih =>
    obtain ⟨first, value⟩ := entry
    simp only [names, get?, Assoc.keys] at ih ⊢
    rw [Assoc.get?_cons, List.map_cons, List.mem_cons]
    by_cases here : x = first
    · simp [here]
    · simp [here, ih]

theorem mem_entries_of_get? (found : f.get? x = some v) : (x, v) ∈ f.entries :=
  Assoc.mem_of_get? found

theorem get?_of_mem_entries (distinct : f.names.Nodup) (member : (x, v) ∈ f.entries) :
    f.get? x = some v :=
  Assoc.get?_of_mem distinct member

theorem binds_iff : f.binds x = true ↔ x ∈ f.names := by
  rw [mem_names_iff, binds, Option.isSome_iff_exists]

theorem insertAll_cons (f : Frame) (x : Symbol) (v : Value) (pairs : List (Symbol × Value)) :
    f.insertAll ((x, v) :: pairs) = (f.insert x v).insertAll pairs := rfl

/-- The value of a name after some pairs have been bound is that of one of the pairs if the name is
    among them, and what it was otherwise. -/
theorem get?_insertAll (pairs : List (Symbol × Value)) (f : Frame) (x : Symbol) :
    (∃ v, (x, v) ∈ pairs ∧ (f.insertAll pairs).get? x = some v) ∨
      (x ∉ pairs.map Prod.fst ∧ (f.insertAll pairs).get? x = f.get? x) := by
  induction pairs generalizing f with
  | nil => exact .inr ⟨by simp, rfl⟩
  | cons pair rest ih =>
    obtain ⟨y, w⟩ := pair
    rw [insertAll_cons]
    rcases ih (f.insert y w) with ⟨v, member, found⟩ | ⟨absent, same⟩
    · exact .inl ⟨v, List.mem_cons_of_mem _ member, found⟩
    · rw [same, get?_insert]
      by_cases here : x = y
      · subst here
        exact .inl ⟨w, List.mem_cons_self, if_pos rfl⟩
      · exact .inr ⟨by simp [here, absent], if_neg here⟩

theorem get?_insertAll_eq_some {pairs : List (Symbol × Value)}
    (found : (f.insertAll pairs).get? x = some v) : (x, v) ∈ pairs ∨ f.get? x = some v := by
  rcases get?_insertAll pairs f x with ⟨w, member, there⟩ | ⟨_, same⟩
  · rw [found, Option.some.injEq] at there
    exact .inl (there ▸ member)
  · exact .inr (same ▸ found)

theorem mem_names_insertAll (pairs : List (Symbol × Value)) (f : Frame) (x : Symbol) :
    x ∈ (f.insertAll pairs).names ↔ x ∈ pairs.map Prod.fst ∨ x ∈ f.names := by
  induction pairs generalizing f with
  | nil => simp [insertAll, Assoc.insertAll, names]
  | cons pair rest ih =>
    obtain ⟨y, w⟩ := pair
    rw [insertAll_cons, ih, mem_names_insert, List.map_cons, List.mem_cons]
    tauto

theorem mem_names_ofPairs {pairs : List (Symbol × Value)} :
    x ∈ (ofPairs pairs).names ↔ x ∈ pairs.map Prod.fst := by
  rw [ofPairs, mem_names_insertAll]
  simp [empty, names, Assoc.keys]

theorem get?_ofPairs_eq_some {pairs : List (Symbol × Value)}
    (found : (ofPairs pairs).get? x = some v) : (x, v) ∈ pairs := by
  rcases get?_insertAll_eq_some found with member | found
  · exact member
  · simp [empty, get?, Assoc.get?] at found

theorem nodup_insert (distinct : f.names.Nodup) : (f.insert x v).names.Nodup := by
  rw [names_insert]
  split
  · exact distinct
  · rename_i absent
    refine List.nodup_append.mpr ⟨distinct, by simp, ?_⟩
    intro y member z last same
    rw [List.mem_singleton.mp last] at same
    exact absent (same ▸ member)

theorem nodup_insertAll (pairs : List (Symbol × Value)) (distinct : f.names.Nodup) :
    (f.insertAll pairs).names.Nodup := by
  induction pairs generalizing f with
  | nil => exact distinct
  | cons pair rest ih => exact ih (nodup_insert distinct)

/-- Whatever it is made of, a frame binds no name twice. -/
theorem nodup_ofPairs (pairs : List (Symbol × Value)) : (ofPairs pairs).names.Nodup :=
  nodup_insertAll pairs List.nodup_nil

theorem names_ofPairs_singleton (x : Symbol) (v : Value) : (ofPairs [(x, v)]).names = [x] := rfl

theorem get?_empty (x : Symbol) : empty.get? x = none := rfl

/-- Parameters can be bound to arguments exactly if they are as many. -/
theorem bind_eq_ok {params : List Symbol} {args : List Value} {fr : Frame} :
    bind params args = .ok fr ↔ params.length = args.length ∧ fr = ofPairs (params.zip args) := by
  unfold bind
  split
  · rename_i same
    simp [same, eq_comm]
  · rename_i different
    simp [different]

theorem mem_names_of_bind {params : List Symbol} {args : List Value} {fr : Frame}
    (bound : bind params args = .ok fr) : x ∈ fr.names ↔ x ∈ params := by
  obtain ⟨same, rfl⟩ := bind_eq_ok.mp bound
  rw [mem_names_ofPairs, List.map_fst_zip (by omega)]

theorem mem_args_of_bind {params : List Symbol} {args : List Value} {fr : Frame}
    (bound : bind params args = .ok fr) (found : fr.get? x = some v) : v ∈ args := by
  obtain ⟨same, rfl⟩ := bind_eq_ok.mp bound
  exact (List.of_mem_zip (get?_ofPairs_eq_some found)).2

end Frame

namespace Store

variable {s : Store} {env other : EnvRef} {f : FrameRef} {x : Symbol}

/-- An environment that has been made. -/
def HasEnv (s : Store) (env : EnvRef) : Prop := env.index < s.chains.size

/-- A frame that has been made. -/
def HasFrame (s : Store) (f : FrameRef) : Prop := f.index < s.frames.size

theorem chain_of_not_hasEnv (absent : ¬ s.HasEnv env) : s.chain env = [] := by
  simp only [HasEnv, Nat.not_lt] at absent
  simp [chain, absent]

theorem frame_of_not_hasFrame (absent : ¬ s.HasFrame f) : s.frame f = .empty := by
  simp only [HasFrame, Nat.not_lt] at absent
  simp [frame, absent]

/-- A frame that binds something has been made. -/
theorem hasFrame_of_mem_names (bound : x ∈ (s.frame f).names) : s.HasFrame f := by
  by_contra absent
  rw [frame_of_not_hasFrame absent] at bound
  simp [Frame.empty, Frame.names, Assoc.keys] at bound

/-! ## The next references -/

/-- The reference that the next frame gets. -/
def nextFrame (s : Store) : FrameRef := ⟨s.frames.size⟩

/-- The reference that the next environment gets. -/
def nextEnv (s : Store) : EnvRef := ⟨s.chains.size⟩

theorem not_hasFrame_nextFrame : ¬ s.HasFrame s.nextFrame := Nat.lt_irrefl _

theorem not_hasEnv_nextEnv : ¬ s.HasEnv s.nextEnv := Nat.lt_irrefl _

theorem ne_nextFrame (there : s.HasFrame f) : f ≠ s.nextFrame := by
  rintro rfl
  exact not_hasFrame_nextFrame there

theorem ne_nextEnv (there : s.HasEnv env) : env ≠ s.nextEnv := by
  rintro rfl
  exact not_hasEnv_nextEnv there

/-! ## A new environment in front of another -/

theorem frame_extend (s : Store) (env : EnvRef) (fr : Frame) (f : FrameRef) :
    (s.extend env fr).2.frame f = if f = s.nextFrame then fr else s.frame f := by
  by_cases here : f = s.nextFrame
  · subst here
    simp [extend, newFrame, newEnv, frame, nextFrame]
  · have apart : f.index ≠ s.frames.size := fun same => here (by cases f; simp_all [nextFrame])
    simp [extend, newFrame, newEnv, frame, here, apart, Array.getElem?_push]

theorem chain_extend (s : Store) (env : EnvRef) (fr : Frame) (other : EnvRef) :
    (s.extend env fr).2.chain other =
      if other = s.nextEnv then s.nextFrame :: s.chain env else s.chain other := by
  by_cases here : other = s.nextEnv
  · subst here
    simp [extend, newFrame, newEnv, chain, nextFrame, nextEnv]
  · have apart : other.index ≠ s.chains.size :=
      fun same => here (by cases other; simp_all [nextEnv])
    simp [extend, newFrame, newEnv, chain, here, apart, Array.getElem?_push]

theorem frames_size_extend (s : Store) (env : EnvRef) (fr : Frame) :
    (s.extend env fr).2.frames.size = s.frames.size + 1 := by
  simp [extend, newFrame, newEnv]

theorem chains_size_extend (s : Store) (env : EnvRef) (fr : Frame) :
    (s.extend env fr).2.chains.size = s.chains.size + 1 := by
  simp [extend, newFrame, newEnv]

/-! ## A new frame on an environment itself -/

theorem frame_push (s : Store) (env : EnvRef) (fr : Frame) (f : FrameRef) :
    (s.push env fr).frame f = if f = s.nextFrame then fr else s.frame f := by
  by_cases here : f = s.nextFrame
  · subst here
    simp [push, newFrame, frame, nextFrame]
  · have apart : f.index ≠ s.frames.size := fun same => here (by cases f; simp_all [nextFrame])
    simp [push, newFrame, frame, here, apart, Array.getElem?_push]

theorem chain_push_self (there : s.HasEnv env) (fr : Frame) :
    (s.push env fr).chain env = s.nextFrame :: s.chain env := by
  simp only [HasEnv] at there
  simp [push, newFrame, chain, nextFrame, Array.getElem_modify, there]

theorem chain_push_other (apart : other ≠ env) (fr : Frame) :
    (s.push env fr).chain other = s.chain other := by
  have apart : env.index ≠ other.index := fun same => apart (by cases env; cases other; simp_all)
  simp [push, newFrame, chain, Array.getElem?_modify, apart]

theorem chain_push_of_not_hasEnv (absent : ¬ s.HasEnv env) (fr : Frame) :
    (s.push env fr).chain env = s.chain env := by
  simp only [HasEnv, Nat.not_lt] at absent
  simp [push, newFrame, chain, absent]

/-- The frames of an environment after one has been pushed on some environment. -/
theorem mem_chain_push {fr : Frame} (member : f ∈ (s.push env fr).chain other) :
    f = s.nextFrame ∧ other = env ∨ f ∈ s.chain other := by
  by_cases same : other = env
  · subst same
    by_cases there : s.HasEnv other
    · rw [chain_push_self there, List.mem_cons] at member
      exact member.imp_left fun h => ⟨h, rfl⟩
    · rw [chain_push_of_not_hasEnv there] at member
      exact .inr member
  · rw [chain_push_other same] at member
    exact .inr member

theorem frames_size_push (s : Store) (env : EnvRef) (fr : Frame) :
    (s.push env fr).frames.size = s.frames.size + 1 := by
  simp [push, newFrame]

theorem chains_size_push (s : Store) (env : EnvRef) (fr : Frame) :
    (s.push env fr).chains.size = s.chains.size := by
  simp [push, newFrame]

/-! ## Frames and an environment of them -/

theorem frame_newEnvOf_old (there : s.HasFrame f) (frames : List Frame) :
    (s.newEnvOf frames).2.frame f = s.frame f := by
  simp only [HasFrame] at there
  simp [newEnvOf, newEnv, frame, Array.getElem?_append, there]

theorem frame_newEnvOf_new (fresh : ¬ s.HasFrame f) (frames : List Frame) :
    (s.newEnvOf frames).2.frame f = .empty ∨ (s.newEnvOf frames).2.frame f ∈ frames := by
  simp only [HasFrame] at fresh
  simp only [newEnvOf, newEnv, frame, Array.getElem?_append, fresh, if_false, List.getElem?_toArray]
  cases found : frames[f.index - s.frames.size]? with
  | none => exact .inl rfl
  | some fr => exact .inr (List.mem_of_getElem? found)

/-- The frames of a new environment are those it was made of, in order. -/
theorem frame_newEnvOf_at (s : Store) (frames : List Frame) (i : Nat) :
    (s.newEnvOf frames).2.frame ⟨s.frames.size + i⟩ = frames[i]?.getD .empty := by
  have fresh : ¬ s.frames.size + i < s.frames.size := by omega
  simp [newEnvOf, newEnv, frame, Array.getElem?_append, fresh]

theorem chain_newEnvOf_old (there : s.HasEnv env) (frames : List Frame) :
    (s.newEnvOf frames).2.chain env = s.chain env := by
  have apart : env.index ≠ s.chains.size := Nat.ne_of_lt there
  simp [newEnvOf, newEnv, chain, Array.getElem?_push, apart]

theorem chain_newEnvOf_absent (absent : ¬ s.HasEnv env) (apart : env ≠ s.nextEnv)
    (frames : List Frame) : (s.newEnvOf frames).2.chain env = [] := by
  simp only [HasEnv, Nat.not_lt] at absent
  have apart : env.index ≠ s.chains.size := fun same => apart (by cases env; simp_all [nextEnv])
  simp [newEnvOf, newEnv, chain, Array.getElem?_push, apart, absent]

theorem chain_newEnvOf_new (s : Store) (frames : List Frame) :
    (s.newEnvOf frames).2.chain s.nextEnv =
      (List.range' s.frames.size frames.length).map FrameRef.mk := by
  simp [newEnvOf, newEnv, chain, nextEnv]

theorem mem_chain_newEnvOf {frames : List Frame} :
    f ∈ (s.newEnvOf frames).2.chain s.nextEnv ↔
      s.frames.size ≤ f.index ∧ f.index < s.frames.size + frames.length := by
  rw [chain_newEnvOf_new, List.mem_map]
  constructor
  · rintro ⟨i, member, rfl⟩
    simpa [List.mem_range'_1] using member
  · intro range
    exact ⟨f.index, by simpa [List.mem_range'_1] using range, rfl⟩

theorem frames_size_newEnvOf (s : Store) (frames : List Frame) :
    (s.newEnvOf frames).2.frames.size = s.frames.size + frames.length := by
  simp [newEnvOf, newEnv]

theorem chains_size_newEnvOf (s : Store) (frames : List Frame) :
    (s.newEnvOf frames).2.chains.size = s.chains.size + 1 := by
  simp [newEnvOf, newEnv]

/-! ## A change inside a frame -/

theorem frame_modifyFrame_self (there : s.HasFrame f) (change : Frame → Frame) :
    (s.modifyFrame f change).frame f = change (s.frame f) := by
  simp only [HasFrame] at there
  simp [modifyFrame, frame, Array.getElem_modify, there]

theorem frame_modifyFrame_other {g : FrameRef} (apart : g ≠ f) (change : Frame → Frame) :
    (s.modifyFrame f change).frame g = s.frame g := by
  have apart : f.index ≠ g.index := fun same => apart (by cases f; cases g; simp_all)
  simp [modifyFrame, frame, Array.getElem?_modify, apart]

/-- A change inside a frame that has not been made changes nothing. -/
theorem frame_modifyFrame_absent (absent : ¬ s.HasFrame f) (change : Frame → Frame) :
    (s.modifyFrame f change).frame f = s.frame f := by
  simp only [HasFrame, Nat.not_lt] at absent
  simp [modifyFrame, frame, absent]

theorem frame_modifyFrame (s : Store) (f g : FrameRef) (change : Frame → Frame) :
    (s.modifyFrame f change).frame g = s.frame g ∨
      g = f ∧ s.HasFrame f ∧ (s.modifyFrame f change).frame g = change (s.frame g) := by
  by_cases same : g = f
  · subst same
    by_cases there : s.HasFrame g
    · exact .inr ⟨rfl, there, frame_modifyFrame_self there change⟩
    · exact .inl (frame_modifyFrame_absent there change)
  · exact .inl (frame_modifyFrame_other same change)

theorem frames_size_modifyFrame (s : Store) (f : FrameRef) (change : Frame → Frame) :
    (s.modifyFrame f change).frames.size = s.frames.size := by
  simp [modifyFrame]

/-! ## What frames bind names to -/

/-- A frame binds a name to a value. -/
def Binds (s : Store) (f : FrameRef) (x : Symbol) (v : Value) : Prop := (s.frame f).get? x = some v

theorem binds_extend {fr : Frame} {v : Value} (binds : (s.extend env fr).2.Binds f x v) :
    s.Binds f x v ∨ f = s.nextFrame ∧ fr.get? x = some v := by
  unfold Binds at binds
  rw [frame_extend] at binds
  split at binds
  · rename_i here
    exact .inr ⟨here, binds⟩
  · exact .inl binds

theorem binds_newEnvOf {frames : List Frame} {v : Value}
    (binds : (s.newEnvOf frames).2.Binds f x v) :
    s.Binds f x v ∨ ¬ s.HasFrame f ∧ ∃ fr ∈ frames, fr.get? x = some v := by
  unfold Binds at binds
  by_cases there : s.HasFrame f
  · rw [frame_newEnvOf_old there] at binds
    exact .inl binds
  · rcases frame_newEnvOf_new there frames with nothing | member
    · rw [nothing, Frame.get?_empty] at binds
      cases binds
    · exact .inr ⟨there, _, member, binds⟩

theorem binds_push {y : Symbol} {v w : Value}
    (binds : (s.push env (Frame.ofPairs [(x, v)])).Binds f y w) :
    s.Binds f y w ∨ f = s.nextFrame ∧ w = v := by
  unfold Binds at binds
  rw [frame_push] at binds
  split at binds
  · rename_i here
    have pair := List.mem_singleton.mp (Frame.get?_ofPairs_eq_some binds)
    exact .inr ⟨here, (Prod.mk.inj pair).2⟩
  · exact .inl binds

theorem binds_assign {g : FrameRef} {y : Symbol} {v w : Value}
    (binds : (s.assign f x v).Binds g y w) : s.Binds g y w ∨ g = f ∧ y = x ∧ w = v := by
  unfold Binds assign at binds
  rcases frame_modifyFrame s f g (·.insert x v) with same | ⟨here, _, changed⟩
  · rw [same] at binds
    exact .inl binds
  · rw [changed, Frame.get?_insert] at binds
    split at binds
    · rename_i name
      exact .inr ⟨here, name, (Option.some.inj binds).symm⟩
    · exact .inl binds

theorem hasFrame_of_binds {v : Value} (binds : s.Binds f x v) : s.HasFrame f :=
  hasFrame_of_mem_names (Frame.mem_names_iff.mpr ⟨v, binds⟩)

/-- A frame in which names have been bound binds these as it was told, and others as before. -/
theorem binds_assignAll {g : FrameRef} {y : Symbol} {w : Value} {pairs : List (Symbol × Value)}
    (binds : (s.assignAll f pairs).Binds g y w) :
    s.Binds g y w ∧ (g = f → y ∉ pairs.map Prod.fst) ∨ g = f ∧ (y, w) ∈ pairs := by
  by_cases here : g = f
  · subst here
    have there : s.HasFrame g := by
      have there := hasFrame_of_binds binds
      rwa [HasFrame, assignAll, frames_size_modifyFrame] at there
    rw [Binds, assignAll, frame_modifyFrame_self there] at binds
    rcases Frame.get?_insertAll pairs (s.frame g) y with ⟨v, member, found⟩ | ⟨absent, same⟩
    · rw [binds, Option.some.injEq] at found
      exact .inr ⟨rfl, found ▸ member⟩
    · rw [same] at binds
      exact .inl ⟨binds, fun _ => absent⟩
  · rw [Binds, assignAll, frame_modifyFrame_other here] at binds
    exact .inl ⟨binds, fun same => absurd same here⟩

/-! ## Finding a name -/

/-- The frame that is found is one of the environment's and binds the name. -/
theorem find?_eq_some (found : s.find? env x = some f) :
    f ∈ s.chain env ∧ x ∈ (s.frame f).names := by
  have binds := List.find?_some (p := fun f => (s.frame f).binds x) found
  exact ⟨List.mem_of_find?_eq_some found, Frame.binds_iff.mp binds⟩

theorem find?_eq_none : s.find? env x = none ↔ ∀ f ∈ s.chain env, x ∉ (s.frame f).names := by
  simp only [find?, List.find?_eq_none, Frame.binds_iff]

theorem binding?_eq_some {v : Value} (found : s.binding? env x = some v) :
    ∃ f ∈ s.chain env, s.Binds f x v :=
  List.exists_of_findSome?_eq_some found

theorem binding?_eq_none : s.binding? env x = none ↔ ∀ f ∈ s.chain env, x ∉ (s.frame f).names := by
  rw [binding?, List.findSome?_eq_none_iff]
  refine forall₂_congr fun f _ => ?_
  rw [Frame.mem_names_iff, not_exists, Option.eq_none_iff_forall_ne_some]

/-- The frame in which names can be bound again is the first of the environment. -/
theorem headFor_eq_ok {params : List Symbol} {args : List Value} :
    s.headFor env params args = .ok f ↔
      params.length = args.length ∧ ∃ rest, s.chain env = f :: rest := by
  unfold headFor
  split
  · rename_i same
    cases s.chain env <;> simp [same]
  · rename_i different
    simp [different]

end Store

end FrameLisp
