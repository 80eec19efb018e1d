import FrameLisp.Proofs.Isolation
import FrameLisp.Proofs.Simulation

/-!
What is written apart. Of two states that mirror each other, the right one may hold more than what
corresponds to something on the left. A region is spared (`Spares`) if it is closed and nothing in
it corresponds to anything. Writing to what corresponds leaves a spared region as it is
(`Spares.after_own`), and writing to a spared region leaves the states mirroring each other
(`Mirrors.after_foreign`), with what is made there spared as well (`Spares.after_foreign`).
-/
namespace FrameLisp

/-! ## What is written -/

/-- All that has been written since a state lies in a region and in what has been made since. -/
structure WrittenIn (N : Region) (s t : Store) : Prop where
  closed : (N.orNew s).Closed t
  moreFrames : s.frames.size ≤ t.frames.size
  moreEnvs : s.chains.size ≤ t.chains.size
  frame : ∀ f, ¬ (N.orNew s).frames f → t.frame f = s.frame f
  chain : ∀ env, ¬ (N.orNew s).envs env → t.chain env = s.chain env

section
variable {N : Region} {s t : Store} {env : EnvRef} {m : Machine}

theorem WrittenIn.refl (closed : N.Closed s) : WrittenIn N s s :=
  ⟨closed.orNew, Nat.le_refl _, Nat.le_refl _, fun _ _ => rfl, fun _ _ => rfl⟩

/-- What is evaluated inside a closed region is written there. -/
theorem Confined.writtenIn (confined : Confined env s t) (closed : N.Closed s)
    (inside : N.envs env) : WrittenIn N s t := by
  have envs {other : EnvRef} (there : (Region.available s env).envs other) :
      (N.orNew s).envs other :=
    there.imp_left (closed.envs_of_reaches inside)
  have frames {f : FrameRef} (there : (Region.available s env).frames f) :
      (N.orNew s).frames f :=
    there.imp_left (closed.frames_of_reaches inside)
  refine ⟨⟨?_, ?_⟩, confined.frames, confined.chains, ?_, ?_⟩
  · intro other there f member
    by_cases available : (Region.available s env).envs other
    · exact frames (confined.closed.frames other available f member)
    · rw [confined.chain other available] at member
      rcases there with there | absent
      · exact .inl (closed.frames other there f member)
      · exact absurd (.inr absent) available
  · rintro f there x v binds part occurs stamp params body captured rfl
    by_cases available : (Region.available s env).frames f
    · exact envs (confined.closed.values f available x v binds _ occurs _ _ _ _ rfl)
    · rw [Store.Binds, confined.frame f available] at binds
      rcases there with there | absent
      · exact .inl (closed.values f there x v binds _ occurs _ _ _ _ rfl)
      · exact absurd (.inr absent) available
  · exact fun f outside => confined.frame f fun there => outside (frames there)
  · exact fun other outside => confined.chain other fun there => outside (envs there)

/-- A new global environment is made of new frames. -/
theorem writtenIn_newGlobal (closed : N.Closed m.store) :
    WrittenIn N m.store m.newGlobal.2.store := by
  have fixes := fixes_newGlobal m
  refine ⟨⟨?_, ?_⟩, fixes.frames, fixes.chains, ?_, ?_⟩
  · intro env there f member
    by_cases made : m.store.HasEnv env
    · rw [fixes.chain env made] at member
      exact .inl (closed.frames env (there.resolve_right fun absent => absent made) f member)
    · rw [newGlobal_store] at member
      by_cases new : env = m.store.nextEnv
      · subst new
        exact .inr (Nat.not_lt.mpr (Store.mem_chain_newEnvOf.mp member).1)
      · rw [Store.chain_newEnvOf_absent made new] at member
        cases member
  · intro f there x v binds part occurs
    by_cases made : m.store.HasFrame f
    · rw [newGlobal_store, Store.Binds, Store.frame_newEnvOf_old made] at binds
      have inside := there.resolve_right fun absent => absent made
      exact (closed.values f inside x v binds part occurs).mono fun _ _ _ => .inl
    · exact whenClosure_newGlobal made binds occurs
  · intro f outside
    rw [newGlobal_store]
    exact Store.frame_newEnvOf_old (Classical.not_not.mp fun absent => outside (.inr absent)) _
  · intro env outside
    exact fixes.chain env (Classical.not_not.mp fun absent => outside (.inr absent))

end

/-- What corresponds to something, on the right. -/
def Renaming.image (ρ : Renaming) : Region :=
  ⟨fun env => ∃ a, ρ.envs a env.index, fun f => ∃ a, ρ.frames a f.index⟩

theorem forall₂_exists_left {α β : Type} {R : α → β → Prop} {xs : List α} {ys : List β} {y : β}
    (related : List.Forall₂ R xs ys) (member : y ∈ ys) : ∃ x ∈ xs, R x y := by
  induction related with
  | nil => cases member
  | cons first _ ih =>
    rcases List.mem_cons.mp member with rfl | member
    · exact ⟨_, List.mem_cons_self, first⟩
    · obtain ⟨x, there, related⟩ := ih member
      exact ⟨x, List.mem_cons_of_mem _ there, related⟩

/-- What occurs in one of two alike values is like something. -/
theorem alike_of_occursIn {ρ : Renaming} {v w part : Value} (inside : part.OccursIn w)
    (alike : v.Alike ρ w) : ∃ other : Value, other.Alike ρ part := by
  induction inside generalizing v with
  | self => exact ⟨v, alike⟩
  | list member _ ih =>
    cases alike with
    | list _ each =>
      obtain ⟨item, _, alike⟩ := forall₂_exists_left (Value.alikeItems_iff.mp each) member
      exact ih alike
  | tuple member _ ih =>
    cases alike with
    | tuple _ each =>
      obtain ⟨item, _, alike⟩ := forall₂_exists_left (Value.alikeItems_iff.mp each) member
      exact ih alike
  | dict member _ ih =>
    cases alike with
    | dict _ each =>
      have each := Value.alikeItems_iff.mp (Value.alikeItems_parts each)
      obtain ⟨item, _, alike⟩ := forall₂_exists_left each member
      exact ih alike

/-- No path leads from what corresponds to something to what does not. -/
theorem Mirrors.closed_image {ρ : Renaming} {m n : Machine} (mirrors : Mirrors ρ m n) :
    ρ.image.Closed n.store := by
  refine ⟨?_, ?_⟩
  · rintro env ⟨a, related⟩ f member
    have chains : List.Forall₂ _ (m.store.chain ⟨a⟩) _ := mirrors.chain related
    obtain ⟨g, _, frames⟩ := forall₂_exists_left chains member
    exact ⟨g.index, frames⟩
  · rintro f ⟨a, related⟩ x w binds part occurs stamp params body captured rfl
    have found := mirrors.get? (f := ⟨a⟩) related x
    rw [binds] at found
    generalize (m.store.frame ⟨a⟩).get? x = v? at found
    cases found with
    | some alike =>
      obtain ⟨other, alike⟩ := alike_of_occursIn occurs alike
      cases alike with
      | closure _ _ envs => exact ⟨_, envs⟩

/-- A region on the right that is closed, and in which nothing corresponds to anything. -/
structure Spares (ρ : Renaming) (N : Region) (s : Store) : Prop where
  closed : N.Closed s
  envs : ∀ {env}, N.envs env → s.HasEnv env ∧ ¬ ρ.image.envs env
  frames : ∀ {f}, N.frames f → s.HasFrame f ∧ ¬ ρ.image.frames f

section
variable {ρ σ : Renaming} {N : Region} {m n n' : Machine}

/-- Writing to what corresponds to something leaves a spared region alone. -/
theorem Spares.after_own (spares : Spares ρ N n.store)
    (written : WrittenIn ρ.image n.store n'.store) (evolves : Evolves ρ n σ n') :
    Spares σ N n'.store := by
  have chain {env : EnvRef} (inside : N.envs env) : n'.store.chain env = n.store.chain env := by
    obtain ⟨there, apart⟩ := spares.envs inside
    exact written.chain env fun either => either.elim apart fun absent => absent there
  have frame {f : FrameRef} (inside : N.frames f) : n'.store.frame f = n.store.frame f := by
    obtain ⟨there, apart⟩ := spares.frames inside
    exact written.frame f fun either => either.elim apart fun absent => absent there
  refine ⟨⟨?_, ?_⟩, ?_, ?_⟩
  · intro env inside f member
    rw [chain inside] at member
    exact spares.closed.frames env inside f member
  · intro f inside x v binds
    rw [Store.Binds, frame inside] at binds
    exact spares.closed.values f inside x v binds
  · intro env inside
    obtain ⟨there, apart⟩ := spares.envs inside
    refine ⟨Nat.lt_of_lt_of_le there evolves.moreEnvs, ?_⟩
    rintro ⟨a, related⟩
    rcases evolves.envs related with old | new
    · exact apart ⟨a, old⟩
    · exact absurd there (Nat.not_lt.mpr new)
  · intro f inside
    obtain ⟨there, apart⟩ := spares.frames inside
    refine ⟨Nat.lt_of_lt_of_le there evolves.moreFrames, ?_⟩
    rintro ⟨a, related⟩
    rcases evolves.frames related with old | new
    · exact apart ⟨a, old⟩
    · exact absurd there (Nat.not_lt.mpr new)

/-- Writing to a spared region leaves alone what corresponds to something. -/
theorem Mirrors.after_foreign (mirrors : Mirrors ρ m n) (spares : Spares ρ N n.store)
    (written : WrittenIn N n.store n'.store) (stamps : n.stamps ≤ n'.stamps)
    (notes : n'.notes = n.notes) (records : n'.records = n.records) : Mirrors ρ m n' := by
  refine mirrors.goOn stamps written.moreEnvs written.moreFrames ?_ ?_ notes records
  · intro env env' related
    refine written.chain env' ?_
    rintro (inside | absent)
    · exact (spares.envs inside).2 ⟨_, related⟩
    · exact absent (mirrors.hasEnv related).2
  · intro f g related
    refine written.frame g ?_
    rintro (inside | absent)
    · exact (spares.frames inside).2 ⟨_, related⟩
    · exact absent (mirrors.hasFrame related).2

/-- What has been made of a region so far. -/
def Region.made (N : Region) (s : Store) : Region :=
  ⟨fun env => N.envs env ∧ s.HasEnv env, fun f => N.frames f ∧ s.HasFrame f⟩

/-- What is made while writing to a spared region is spared from then on. -/
theorem Spares.after_foreign (spares : Spares ρ N n.store) (mirrors : Mirrors ρ m n)
    (written : WrittenIn N n.store n'.store) (wf : n'.store.WellFormed) :
    Spares ρ ((N.orNew n.store).made n'.store) n'.store := by
  refine ⟨⟨?_, ?_⟩, ?_, ?_⟩
  · rintro env ⟨inside, _⟩ f member
    exact ⟨written.closed.frames env inside f member, wf.chains env f member⟩
  · rintro f ⟨inside, _⟩ x v binds part occurs stamp params body captured rfl
    exact ⟨written.closed.values f inside x v binds _ occurs _ _ _ _ rfl,
      (wf.values f x v binds _ occurs _ _ _ _ rfl).1⟩
  · rintro env ⟨inside, there⟩
    refine ⟨there, ?_⟩
    rintro ⟨a, related⟩
    rcases inside with inside | absent
    · exact (spares.envs inside).2 ⟨a, related⟩
    · exact absent (mirrors.envs.bounds related).2
  · rintro f ⟨inside, there⟩
    refine ⟨there, ?_⟩
    rintro ⟨a, related⟩
    rcases inside with inside | absent
    · exact (spares.frames inside).2 ⟨a, related⟩
    · exact absent (mirrors.frames.bounds related).2

end

end FrameLisp
