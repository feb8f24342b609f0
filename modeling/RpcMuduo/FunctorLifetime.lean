import RpcMuduo.SharedLoop

/-!
# The lifetime of queued functors

A connection must not go while a functor that names it waits. The counts are the numbers of
references held, so the last one that a step gives up decides.
-/
namespace RpcMuduo.SharedLoop
open Run StrongCount

/-- Every functor that waits names a connection that is still owned. -/
def Owned (s : SharedLoop) : Prop := ∀ c ∈ s.waiting, s.Alive c

/-- The step does not give up the last reference to a connection that a functor names. -/
def KeepsOwner (s : SharedLoop) (e : Event) : Prop :=
  ∀ c ∈ s.waiting, (s.dropped e).count c < s.refs c

structure OwnInv (s : SharedLoop) : Prop where
  counts : Counts s.refs s.held
  made : ∀ c ∈ s.held, c < s.objects.length

/-- What a step does to the references and to the functors: it queues functors of connections that
are alive, or it gives up references. -/
structure Exchange (s t : SharedLoop) (dropped taken : List ℕ) : Prop where
  counts : Counts t.refs t.held
  held : (dropped ++ t.held).Perm (taken ++ s.held)
  made : ∀ c ∈ taken, c < t.objects.length
  objects : s.objects.length ≤ t.objects.length
  waiting : (dropped = [] ∧ ∀ c ∈ t.waiting, c ∈ s.waiting ∨ s.Alive c) ∨
    (t.waiting = s.waiting ∧ ∀ c ∈ taken, s.objects.length ≤ c)

variable {s t : SharedLoop}

section Held

lemma held_enter (h : s.callback = none) (callback : Callback) (c : ℕ) :
    (s.enter callback c).held.Perm (c :: s.held) := by
  rw [List.perm_iff_count]
  intro a
  simp only [held, enter, tempRuns, boundByBatch, h, List.count_append, List.count_cons,
    Option.map_none, Option.map_some, Option.toList_none, Option.toList_some, List.count_nil]
  omega

lemma held_leave {callback : Callback} {c : ℕ} (h : s.callback = some (callback, c)) :
    (c :: (s.leave c).held).Perm s.held := by
  rw [List.perm_iff_count]
  intro a
  simp only [held, leave, tempRuns, boundByBatch, h, List.count_append, List.count_cons,
    Option.map_none, Option.map_some, Option.toList_none, Option.toList_some, List.count_nil]
  omega

lemma held_assign (s : SharedLoop) (owner : Owner) (c : ℕ) :
    (s.displaced owner ++ (s.assign owner c).held).Perm (c :: s.held) := by
  rw [List.perm_iff_count]
  intro a
  have hcount := (perm_of_filter Prod.snd (fun p => p.1 = owner) s.owners).count_eq a
  simp only [List.count_append] at hcount
  simp only [held, assign, displaced, tempRuns, boundByBatch, List.count_append, List.map_cons,
    List.count_cons, ne_eq] at hcount ⊢
  omega

lemma held_removeConnection (s : SharedLoop) (owner : Owner) (c : ℕ) :
    (s.removed owner c ++ (s.removeConnection owner c).held).Perm s.held := by
  rw [List.perm_iff_count]
  intro a
  have hcount := (perm_of_filter Prod.snd (Removes owner c) s.owners).count_eq a
  simp only [List.count_append] at hcount
  simp only [held, removeConnection, removed, tempRuns, boundByBatch, List.count_append]
  omega

lemma held_queueEstablished (s : SharedLoop) (c : ℕ) :
    (s.queueEstablished c).held.Perm (c :: s.held) := by
  rw [List.perm_iff_count]
  intro a
  simp only [held, queueEstablished, tempRuns, boundByBatch, ← List.append_assoc,
    List.filterMap_append, List.filterMap_cons, bound, List.filterMap_nil, List.count_append,
    List.count_cons, List.count_nil]
  omega

lemma waiting_queueEstablished (s : SharedLoop) (c : ℕ) :
    (s.queueEstablished c).waiting = s.waiting := by
  simp only [waiting, queueEstablished, tempRuns, List.filterMap_append, List.filterMap_cons,
    named, List.filterMap_nil, List.append_nil]

lemma held_perform (s : SharedLoop) (c : ℕ) (object : SharedConnection)
    (op : ConnectionLoop.Op) : (s.perform c object op).held = s.held := by
  have hbound : (List.map (fun f => (c, Task.functor f))
      (op.apply object.conn).functors).filterMap bound = [] := by
    rw [List.filterMap_eq_nil_iff]
    intro p hp
    obtain ⟨f, -, rfl⟩ := List.mem_map.mp hp
    rfl
  simp only [held, perform, tempRuns, boundByBatch, List.filterMap_append, hbound,
    List.append_nil]

lemma waiting_perform (s : SharedLoop) (c : ℕ) (object : SharedConnection)
    (op : ConnectionLoop.Op) {a : ℕ} (h : a ∈ (s.perform c object op).waiting) :
    a ∈ s.waiting ∨ a = c := by
  simp only [waiting, perform, tempRuns, ← List.append_assoc, List.filterMap_append,
    List.mem_append] at h ⊢
  rcases h with h | h
  · exact Or.inl h
  · obtain ⟨p, hp, hnamed⟩ := List.mem_filterMap.mp h
    obtain ⟨f, -, rfl⟩ := List.mem_map.mp hp
    exact Or.inr (Option.some.inj hnamed).symm

lemma counts_enter (h : Counts s.refs s.held) (hnone : s.callback = none) (callback : Callback)
    (c : ℕ) : Counts (s.enter callback c).refs (s.enter callback c).held :=
  (h.retain c).perm (held_enter hnone callback c)

lemma counts_leave (h : Counts s.refs s.held) {callback : Callback} {c : ℕ}
    (hsome : s.callback = some (callback, c)) : Counts (s.leave c).refs (s.leave c).held :=
  (h.perm (held_leave hsome)).release

lemma counts_assign (h : Counts s.refs s.held) (owner : Owner) (c : ℕ) :
    Counts (s.assign owner c).refs (s.assign owner c).held :=
  ((h.retain c).perm (held_assign s owner c)).foldl_release

lemma counts_removeConnection (h : Counts s.refs s.held) (owner : Owner) (c : ℕ) :
    Counts (s.removeConnection owner c).refs (s.removeConnection owner c).held :=
  (h.perm (held_removeConnection s owner c)).foldl_release

end Held

section Steps

lemma OwnInv.lt (h : OwnInv s) {c : ℕ} (hc : s.Alive c) : c < s.objects.length :=
  h.made c (h.counts.pos_iff.mp hc)

/-- An exchange keeps the counts, and the functors safe when what it gives up is not the last. -/
lemma owned_iff_of_exchange (h : OwnInv s) (howned : Owned s) {dropped taken : List ℕ}
    (hex : Exchange s t dropped taken) :
    (Owned t ↔ ∀ c ∈ s.waiting, dropped.count c < s.refs c) ∧ OwnInv t := by
  have hpos : ∀ c, t.Alive c ↔ dropped.count c < s.refs c + taken.count c :=
    fun c => pos_of_exchange h.counts hex.counts hex.held
  refine ⟨?_, hex.counts, ?_⟩
  · rcases hex.waiting with ⟨hnone, hwaiting⟩ | ⟨hwaiting, hfresh⟩
    · refine iff_of_true ?_ ?_
      · intro c hc
        have halive : s.Alive c := by
          rcases hwaiting c hc with hc | hc
          · exact howned c hc
          · exact hc
        rw [hpos, hnone, List.count_nil]
        exact Nat.lt_of_lt_of_le halive (Nat.le_add_right _ _)
      · intro c hc
        rw [hnone, List.count_nil]
        exact howned c hc
    · have hsame : ∀ c ∈ s.waiting, (t.Alive c ↔ dropped.count c < s.refs c) := by
        intro c hc
        have hnot : c ∉ taken := by
          intro htaken
          have hlt := h.lt (howned c hc)
          have hge := hfresh c htaken
          omega
        rw [hpos, List.count_eq_zero_of_not_mem hnot, Nat.add_zero]
      rw [Owned, hwaiting]
      exact forall₂_congr hsame
  · intro c hc
    have hmem : c ∈ taken ++ s.held := hex.held.subset (List.mem_append_right _ hc)
    rcases List.mem_append.mp hmem with hmem | hmem
    · exact hex.made c hmem
    · exact Nat.lt_of_lt_of_le (h.made c hmem) hex.objects

lemma exchange_perform (h : OwnInv s) {c : ℕ} (halive : s.Alive c) (object : SharedConnection)
    (op : ConnectionLoop.Op) : Exchange s (s.perform c object op) [] [] where
  counts := h.counts.perm (by rw [held_perform])
  held := by rw [held_perform]
  made := by simp
  objects := by simp [perform]
  waiting := by
    refine Or.inl ⟨rfl, ?_⟩
    intro a ha
    rcases waiting_perform s c object op ha with ha | rfl
    · exact Or.inl ha
    · exact Or.inr halive

/-- Entering a callback takes one more reference. -/
lemma Exchange.enter (hex : Exchange s t [] []) (hnone : t.callback = none) {c : ℕ}
    (hc : c < t.objects.length) (callback : Callback) :
    Exchange s (t.enter callback c) [] [c] where
  counts := counts_enter hex.counts hnone callback c
  held := (held_enter hnone callback c).trans (hex.held.cons c)
  made := by
    intro a ha
    rw [List.mem_singleton.mp ha]
    exact hc
  objects := hex.objects
  waiting := by
    rcases hex.waiting with hwaiting | ⟨hwaiting, -⟩
    · exact Or.inl hwaiting
    · refine Or.inl ⟨rfl, ?_⟩
      intro a ha
      exact Or.inl (hwaiting ▸ ha)

/-- A connection that the server has made and put into its map. -/
lemma exchange_assign (h : OwnInv s) (sockfd : ℤ) :
    Exchange s ((s.make (.connections sockfd) sockfd).assign (.connections sockfd)
      s.objects.length) (s.displaced (.connections sockfd)) [s.objects.length] where
  counts := counts_assign (s := s.make (.connections sockfd) sockfd) h.counts _ _
  held := held_assign (s.make (.connections sockfd) sockfd) _ _
  made := by simp [assign, make]
  objects := by simp [assign, make]
  waiting := Or.inr ⟨rfl, by simp⟩

/-- One more reference to a connection made in this step. -/
lemma Exchange.more {gone : List ℕ} (hex : Exchange s t gone [s.objects.length])
    {u : SharedLoop}
    (hcounts : Counts u.refs u.held) (hheld : u.held.Perm (s.objects.length :: t.held))
    (hobjects : u.objects = t.objects) (hwaiting : u.waiting = t.waiting)
    (hsame : t.waiting = s.waiting) :
    Exchange s u gone [s.objects.length, s.objects.length] where
  counts := hcounts
  held := by
    refine (List.Perm.append_left _ hheld).trans ?_
    exact List.perm_middle.trans (hex.held.cons _)
  made := by
    rw [hobjects]
    intro c hc
    exact hex.made c (by simpa using hc)
  objects := hobjects ▸ hex.objects
  waiting := Or.inr ⟨hwaiting.trans hsame, by simp⟩

lemma step_newConnection (h : OwnInv s) {sockfd : ℤ}
    (hstep : step s (.newConnection sockfd) = some t) :
    ∃ taken, Exchange s t (s.dropped (.newConnection sockfd)) taken := by
  simp only [step, Option.ite_none_right_eq_some, Option.some.injEq] at hstep
  obtain ⟨⟨hnone, -⟩, rfl⟩ := hstep
  have hassign := exchange_assign h sockfd
  have hcallback : ((s.make (.connections sockfd) sockfd).assign (.connections sockfd)
    s.objects.length).callback = none := hnone
  exact ⟨_, hassign.more (counts_enter hassign.counts hcallback _ _) (held_enter hcallback _ _)
    rfl rfl rfl⟩

lemma step_newConnectionFrom (h : OwnInv s) {sockfd : ℤ}
    (hstep : step s (.newConnectionFrom sockfd) = some t) :
    ∃ taken, Exchange s t (s.dropped (.newConnectionFrom sockfd)) taken := by
  simp only [step, Option.some.injEq] at hstep
  subst hstep
  have hassign := exchange_assign h sockfd
  have hheld := held_queueEstablished ((s.make (.connections sockfd) sockfd).assign
    (.connections sockfd) s.objects.length) s.objects.length
  exact ⟨_, hassign.more ((hassign.counts.retain _).perm hheld) hheld rfl
    (waiting_queueEstablished _ _) rfl⟩

lemma step_newClientConnection (h : OwnInv s) {client : ℕ} {sockfd : ℤ}
    (hstep : step s (.newClientConnection client sockfd) = some t) :
    ∃ taken, Exchange s t [] taken := by
  simp only [step, Option.ite_none_right_eq_some, Option.some.injEq] at hstep
  obtain ⟨⟨hnone, -⟩, rfl⟩ := hstep
  have hmake : Exchange s (s.make (.connection client) sockfd) [] [] :=
    ⟨h.counts, List.Perm.refl _, by simp, by simp [make], Or.inl ⟨rfl, fun _ ha => Or.inl ha⟩⟩
  exact ⟨_, hmake.enter hnone (by simp [make]) _⟩

lemma step_send (h : OwnInv s) {c : ℕ} {message : Bytes} {ret : ℤ}
    (hstep : step s (.send c message ret) = some t) : ∃ taken, Exchange s t [] taken := by
  simp only [step] at hstep
  split at hstep
  · rename_i object _
    simp only [Option.ite_none_right_eq_some, Option.some.injEq] at hstep
    obtain ⟨halive, rfl⟩ := hstep
    exact ⟨_, exchange_perform h halive object _⟩
  · cases hstep

lemma step_sendFrom (h : OwnInv s) {c : ℕ} {message : Bytes}
    (hstep : step s (.sendFrom c message) = some t) : ∃ taken, Exchange s t [] taken := by
  simp only [step, Option.ite_none_right_eq_some, Option.some.injEq] at hstep
  obtain ⟨halive, rfl⟩ := hstep
  have hheld : held { s with pendingFunctors := s.pendingFunctors ++
      [(c, .functor (.onMessageCB message))] } = s.held := by
    simp [held, tempRuns, boundByBatch, bound]
  refine ⟨[], h.counts.perm (by rw [hheld]), by rw [hheld], by simp, le_rfl, ?_⟩
  refine Or.inl ⟨rfl, ?_⟩
  intro a ha
  simp only [waiting, tempRuns, ← List.append_assoc, List.filterMap_append, List.filterMap_cons,
    named, List.filterMap_nil, List.mem_append, List.mem_singleton] at ha ⊢
  rcases ha with ha | rfl
  · exact Or.inl ha
  · exact Or.inr halive

lemma step_handleRead (h : OwnInv s) {c : ℕ} {readlength : ℤ} {reset : Bool}
    (hstep : step s (.handleRead c readlength reset) = some t) :
    ∃ taken, Exchange s t [] taken := by
  simp only [step] at hstep
  split at hstep
  · rename_i object _
    simp only [Option.ite_none_right_eq_some] at hstep
    obtain ⟨⟨⟨hnone, -⟩, halive, -⟩, hstep⟩ := hstep
    have hperform := exchange_perform h halive object (.read readlength reset)
    split at hstep
    · rename_i callback _
      obtain rfl := Option.some.inj hstep
      exact ⟨_, hperform.enter hnone (by simpa [perform] using h.lt halive) callback⟩
    · obtain rfl := Option.some.inj hstep
      exact ⟨_, hperform⟩
  · cases hstep

lemma step_handleWrite (h : OwnInv s) {c : ℕ} {ret : ℤ}
    (hstep : step s (.handleWrite c ret) = some t) : ∃ taken, Exchange s t [] taken := by
  simp only [step] at hstep
  split at hstep
  · rename_i object _
    simp only [Option.ite_none_right_eq_some, Option.some.injEq] at hstep
    obtain ⟨⟨-, halive⟩, rfl⟩ := hstep
    exact ⟨_, exchange_perform h halive object _⟩
  · cases hstep

lemma step_handleClose (h : OwnInv s) {c : ℕ} (hstep : step s (.handleClose c) = some t) :
    ∃ taken, Exchange s t [] taken := by
  simp only [step] at hstep
  split at hstep
  · rename_i object _
    simp only [Option.ite_none_right_eq_some, Option.some.injEq] at hstep
    obtain ⟨⟨⟨hnone, -⟩, halive, -⟩, rfl⟩ := hstep
    have hperform := exchange_perform h halive object .close
    exact ⟨_, hperform.enter hnone (by simpa [perform] using h.lt halive) _⟩
  · cases hstep

/-- The end of a callback that leaves the owners alone. -/
lemma exchange_leave (h : OwnInv s) {callback : Callback} {c : ℕ}
    (hsome : s.callback = some (callback, c)) : Exchange s (s.leave c) [c] [] where
  counts := counts_leave h.counts hsome
  held := held_leave hsome
  made := by simp
  objects := le_rfl
  waiting := Or.inr ⟨rfl, by simp⟩

/-- `TcpClient::newConnection` hands its own reference on. -/
lemma exchange_assign_leave (h : OwnInv s) {callback : Callback} {c : ℕ}
    (hsome : s.callback = some (callback, c)) (owner : Owner) :
    Exchange s ((s.assign owner c).leave c) (s.displaced owner) [] where
  counts := counts_leave (counts_assign h.counts owner c) hsome
  held := by
    have hsome' : (s.assign owner c).callback = some (callback, c) := hsome
    have hleave := (held_leave hsome').append_left (s.displaced owner)
    exact (List.perm_cons c).mp (List.perm_middle.symm.trans (hleave.trans (held_assign ..)))
  made := by simp
  objects := le_rfl
  waiting := Or.inr ⟨rfl, by simp⟩

/-- The end of `handleClose`. -/
lemma exchange_remove_leave (h : OwnInv s) {callback : Callback} {c : ℕ}
    (hsome : s.callback = some (callback, c)) (owner : Owner) :
    Exchange s ((s.removeConnection owner c).leave c) (c :: s.removed owner c) [] where
  counts := counts_leave (counts_removeConnection h.counts owner c) hsome
  held := by
    have hsome' : (s.removeConnection owner c).callback = some (callback, c) := hsome
    have hleave := (held_leave hsome').append_left (s.removed owner c)
    exact List.perm_middle.symm.trans (hleave.trans (held_removeConnection ..))
  made := by simp
  objects := le_rfl
  waiting := Or.inr ⟨rfl, by simp⟩

lemma step_returnFrom (h : OwnInv s) (hstep : step s .returnFrom = some t) :
    ∃ taken, Exchange s t (s.dropped .returnFrom) taken := by
  simp only [step] at hstep
  split at hstep
  · rename_i callback c hsome
    split at hstep
    · rename_i object hobject
      obtain rfl := Option.some.inj hstep
      refine ⟨[], ?_⟩
      simp only [dropped, hsome, hobject, Option.map_some]
      cases callback with
      | onConnection =>
        cases howner : object.owner with
        | connections fd => exact exchange_leave h hsome
        | connection client => exact exchange_assign_leave h hsome _
      | onMessage => exact exchange_leave h hsome
      | onWriteComplate => exact exchange_leave h hsome
      | onClose => exact exchange_remove_leave h hsome _
    · cases hstep
  · cases hstep

lemma step_swapFunctors (h : OwnInv s) (hstep : step s .swapFunctors = some t) :
    ∃ taken, Exchange s t [] taken := by
  simp only [step, Option.ite_none_right_eq_some, Option.some.injEq] at hstep
  obtain ⟨⟨-, hnone⟩, rfl⟩ := hstep
  have hheld : held { s with batch := some ⟨s.pendingFunctors, []⟩, pendingFunctors := [] } =
      s.held := by
    simp [held, tempRuns, boundByBatch, hnone]
  refine ⟨[], h.counts.perm (by rw [hheld]), by rw [hheld], by simp, le_rfl, ?_⟩
  refine Or.inl ⟨rfl, ?_⟩
  intro a ha
  exact Or.inl (by simpa [waiting, tempRuns, hnone] using ha)

/-- Taking the next functor out of the batch. -/
lemma exchange_next (h : OwnInv s) {p : ℕ × Task} {rest : List (ℕ × Task)} {bound : List ℕ}
    (hbatch : s.batch = some ⟨p :: rest, bound⟩) :
    Exchange s { s with batch := some ⟨rest, (SharedLoop.bound p).toList ++ bound⟩ } [] [] := by
  have hheld : (held { s with batch := some ⟨rest, (SharedLoop.bound p).toList ++ bound⟩ }).Perm
      s.held := by
    rw [List.perm_iff_count]
    intro a
    simp only [held, tempRuns, boundByBatch, hbatch, Option.map_some, Option.getD_some,
      List.cons_append, List.filterMap_cons, List.count_append]
    cases SharedLoop.bound p with
    | none => simp
    | some c =>
      simp only [Option.toList_some, List.count_cons, List.count_nil]
      omega
  refine ⟨h.counts.perm hheld, hheld, by simp, le_rfl, Or.inl ⟨rfl, ?_⟩⟩
  intro a ha
  refine Or.inl ?_
  simp only [waiting, tempRuns, hbatch, Option.map_some, Option.getD_some, List.cons_append,
    List.filterMap_cons] at ha ⊢
  split
  · exact ha
  · exact List.mem_cons_of_mem _ ha

lemma ownInv_next (h : OwnInv s) {p : ℕ × Task} {rest : List (ℕ × Task)} {bound : List ℕ}
    (hbatch : s.batch = some ⟨p :: rest, bound⟩) :
    OwnInv { s with batch := some ⟨rest, (SharedLoop.bound p).toList ++ bound⟩ } := by
  have hnext := exchange_next h hbatch
  refine ⟨hnext.counts, ?_⟩
  intro c hc
  exact h.made c (hnext.held.subset hc)

lemma step_runFunctor (h : OwnInv s) {ret : ℤ} (hstep : step s (.runFunctor ret) = some t) :
    ∃ taken, Exchange s t [] taken := by
  simp only [step] at hstep
  split at hstep
  · rename_i c rest bound hnone hbatch
    obtain rfl := Option.some.inj hstep
    have hc : c ∈ s.held := by
      simp [held, tempRuns, hbatch, SharedLoop.bound]
    exact ⟨_, (exchange_next h hbatch).enter hnone (h.made c hc) _⟩
  · rename_i c rest bound hnone hbatch
    simp only [Option.ite_none_right_eq_some, Option.some.injEq] at hstep
    obtain ⟨halive, rfl⟩ := hstep
    exact ⟨_, (exchange_next h hbatch).enter hnone (h.lt halive) _⟩
  · rename_i c message rest bound hnone hbatch
    split at hstep
    · rename_i object _
      simp only [Option.ite_none_right_eq_some, Option.some.injEq] at hstep
      obtain ⟨halive, rfl⟩ := hstep
      have hnext := exchange_next h hbatch
      have hperform := exchange_perform (ownInv_next h hbatch) halive object (.send message ret)
      refine ⟨[], hperform.counts, hperform.held.trans hnext.held, by simp,
        hperform.objects, Or.inl ⟨rfl, ?_⟩⟩
      intro a ha
      rcases waiting_perform _ c object _ ha with ha | rfl
      · rcases hnext.waiting with ⟨-, hwaiting⟩ | ⟨hwaiting, -⟩
        · exact hwaiting a ha
        · exact Or.inl (hwaiting ▸ ha)
      · exact Or.inr halive
    · cases hstep
  · cases hstep

lemma step_endBatch (h : OwnInv s) (hstep : step s .endBatch = some t) :
    ∃ taken, Exchange s t (s.dropped .endBatch) taken := by
  simp only [step] at hstep
  split at hstep
  · rename_i bound hnone hbatch
    obtain rfl := Option.some.inj hstep
    have hheld : (bound ++ held { s with refs := bound.foldl release s.refs, batch := none }).Perm
        s.held := by
      rw [List.perm_iff_count]
      intro a
      simp only [held, tempRuns, boundByBatch, hbatch, Option.map_some, Option.map_none,
        Option.getD_some, Option.getD_none, List.count_append, List.count_nil]
      omega
    simp only [dropped, boundByBatch, hbatch, Option.map_some, Option.getD_some]
    refine ⟨[], (h.counts.perm hheld).foldl_release, hheld, by simp, le_rfl, Or.inr ⟨?_, by simp⟩⟩
    simp [waiting, tempRuns, hbatch]
  · cases hstep

/-- What any step does. -/
lemma step_exchange (h : OwnInv s) {e : Event} (hstep : step s e = some t) :
    ∃ taken, Exchange s t (s.dropped e) taken := by
  cases e with
  | newConnection sockfd => exact step_newConnection h hstep
  | newConnectionFrom sockfd => exact step_newConnectionFrom h hstep
  | newClientConnection client sockfd => exact step_newClientConnection h hstep
  | send c message ret => exact step_send h hstep
  | sendFrom c message => exact step_sendFrom h hstep
  | handleRead c readlength reset => exact step_handleRead h hstep
  | handleWrite c ret => exact step_handleWrite h hstep
  | handleClose c => exact step_handleClose h hstep
  | returnFrom => exact step_returnFrom h hstep
  | swapFunctors => exact step_swapFunctors h hstep
  | runFunctor ret => exact step_runFunctor h hstep
  | endBatch => exact step_endBatch h hstep

lemma ownInv_initial : OwnInv initial :=
  ⟨counts_nil, by simp [held, initial, tempRuns, boundByBatch]⟩

end Steps

/-- Two connections in one iteration: the handler of the second sends on the first, and then the
first is found closed. -/
def closedBehind : List Event :=
  [.newConnection 5, .returnFrom, .newConnection 6, .returnFrom, .handleRead 1 4 false,
    .send 0 [120] 1, .returnFrom, .handleRead 0 0 false, .returnFrom]

lemma closedBehind_isSome : (run step initial closedBehind).isSome = true := by decide +kernel

/-- Queued functors name owned connections throughout a run exactly when no step gives up the
last reference to a connection that one of them names. -/
theorem functors_owned_iff (es : List Event) :
    Always step Owned initial es ↔ Guarded step KeepsOwner initial es := by
  refine always_iff_guarded_of_invariant (Q := OwnInv) ?_ ?_ ownInv_initial es
  · intro s e t howned h hstep
    obtain ⟨taken, hex⟩ := step_exchange h hstep
    obtain ⟨hiff, hinv⟩ := owned_iff_of_exchange h howned hex
    exact ⟨hiff, fun _ => hinv⟩
  · simp [Owned, waiting, initial, tempRuns]

theorem functor_outlives_connection : ¬ Always step Owned initial closedBehind := by
  intro h
  have howned := always_run h (Option.some_get closedBehind_isSome).symm
  have hmem : 0 ∈ ((run step initial closedBehind).get closedBehind_isSome).waiting := by
    decide +kernel
  have hdead : ¬ ((run step initial closedBehind).get closedBehind_isSome).Alive 0 := by
    decide +kernel
  exact hdead (howned 0 hmem)

end RpcMuduo.SharedLoop
