import BitMRC.Node.Gossip
import BitMRC.Node.Streams

/-!
# What a peer learns

The handler of `verack` sends the tags of the objects that are stored when it looks.  What is
stored later is announced to all connections, and this one is among them by then.
So no object falls between the two, except those that `processObj` takes for known.
-/

namespace BitMRC

open Foundation UString

variable {platform : Platform}

/-! ## New payloads -/

namespace Running

/-- Some listener or `processPOW` has inserted this payload, and still has to announce it. -/
inductive Inserted (running : Running) (payload : UString) : Prop
  | listener {j : Nat} {present : Int} {obj : Object}
      (phase : running.sys.listeners j = .inserted present obj)
      (same : obj.messagePayload = payload)
  | pow {obj : Object} {nonce : UInt64} (phase : running.sys.pow = .inserted obj nonce)
      (same : (Node.withNonce obj nonce).messagePayload = payload)

theorem not_inserted_start {node : Node} {payload : UString} : ¬(start node).Inserted payload := by
  intro inserted
  cases inserted with
  | listener phase => cases phase
  | pow phase => cases phase

/-- Some listener has passed over it, since `insert` returned 2. -/
def PassedOver (trace : List (Running × Label)) (payload : UString) : Prop :=
  ∃ taken ∈ trace, ∃ j obj, taken.2 = .listen j (.leave obj) ∧ obj.messagePayload = payload

/-- A payload is stored by its thread, or together with its announcement. -/
theorem Step.stored_cases {self after : Running} {label : Label} {payload : UString}
    (step : Step platform self label after) (stored : after.sys.node.sharedObj.Stored payload) :
    self.sys.node.sharedObj.Stored payload ∨ after.Inserted payload ∨
      Node.inventoryHash platform payload ∈ label.announced platform := by
  cases step with
  | flush =>
      simp only [withNode] at stored
      split at stored
      next => exact .inl stored
      next => exact .inl stored
  | operate operation packets nodes announced =>
      rcases (operation.reports packets nodes announced).complete payload stored with old | new
      · exact .inl old
      · exact .inr (.inr new.1)
  | pow step =>
      cases step with
      | mine =>
          obtain ⟨i, cur, member, rfl⟩ := stored
          rcases HashTable.mem_insert _ _ _ _ member with old | ⟨_, rfl⟩
          · exact .inl ⟨i, cur, old, rfl⟩
          · exact .inr (.inl (.pow rfl rfl))
      | _ => exact .inl stored
  | listen _ step =>
      cases step with
      | @introduce _ _ address =>
          obtain ⟨nodes, same⟩ := self.sys.node.connectAddress_eq address
          rw [same] at stored
          exact .inl stored
      | @object _ draws packet obj =>
          obtain ⟨i, cur, member, rfl⟩ := stored
          rcases HashTable.mem_insert _ _ _ _ member with old | ⟨_, rfl⟩
          · exact .inl ⟨i, cur, old, rfl⟩
          · exact .inr (.inl (.listener (Function.update_self _ _ _) rfl))
      | leave _ step =>
          cases step
          exact .inl stored
      | announce _ step =>
          cases step
          exact .inl stored
      | handle _ step announced =>
          cases step with
          | handle _ result =>
              obtain ⟨tags, reports⟩ := Node.handleObj_reports result
              have same := List.append_cancel_left (reports.newInv.symm.trans announced)
              rcases reports.complete payload stored with old | new
              · exact .inl old
              · rw [same] at new
                exact .inr (.inr new.1)
      | _ => exact .inl stored
  | _ => exact .inl stored

/-- A payload that was inserted was so before, or is stored by now. -/
theorem Step.inserted_before {self after : Running} {label : Label} {payload : UString}
    (step : Step platform self label after) (inserted : after.Inserted payload) :
    self.Inserted payload ∨ after.sys.node.sharedObj.Stored payload := by
  cases inserted with
  | @listener j present obj phase same =>
      subst same
      have elsewhere {i : Nat} {sys : System} {next : Phase} {node : Node}
          (phase : (sys.proceed i next node).listeners j = .inserted present obj)
          (same : sys.listeners = self.sys.listeners)
          (gone : ∀ code other, next ≠ .inserted code other) :
          self.Inserted obj.messagePayload := by
        by_cases mine : j = i
        · subst mine
          exact absurd ((Function.update_self _ _ _).symm.trans phase) (gone _ _)
        · have there : self.sys.listeners j = .inserted present obj := by
            rw [← same, ← phase]
            exact (Function.update_of_ne mine _ _).symm
          exact .listener there rfl
      cases step with
      | pow step => exact .inl (.listener (step.powStays.listeners ▸ phase) rfl)
      | @listen k _ _ _ _ _ _ step =>
          cases step with
          | @object _ draws packet other =>
              by_cases mine : j = k
              · subst mine
                cases (Function.update_self _ _ _).symm.trans phase
                exact .inr (self.sys.node.share_stored platform draws.buffer obj.messagePayload)
              · exact .inl (.listener ((Function.update_of_ne mine _ _).symm.trans phase) rfl)
          | leave _ step =>
              cases step
              exact .inl (elsewhere phase rfl fun _ _ same => nomatch same)
          | announce _ step =>
              cases step
              exact .inl (elsewhere phase rfl fun _ _ same => nomatch same)
          | handle _ step =>
              cases step
              exact .inl (elsewhere phase rfl fun _ _ same => nomatch same)
          | _ => exact .inl (.listener phase rfl)
      | _ => exact .inl (.listener phase rfl)
  | @pow obj nonce phase same =>
      rcases step.pow_cases with ⟨act, _, moved⟩ | ⟨_, unmoved⟩
      · generalize after.sys = sys at moved phase
        cases moved with
        | take =>
            simp only at phase
            split at phase <;> cases phase
        | @mine buffer =>
            cases phase
            rw [← same]
            exact .inr (self.sys.node.share_stored platform buffer _)
        | refuse => cases phase
        | publish => cases phase
        | stop => cases phase
      · exact .inl (.pow (unmoved ▸ phase) same)

/-- An inserted payload is announced next, or passed over. -/
theorem Step.inserted_cases {self after : Running} {label : Label} {payload : UString}
    (step : Step platform self label after) (inserted : self.Inserted payload) :
    after.Inserted payload ∨ Node.inventoryHash platform payload ∈ label.announced platform ∨
      ∃ j obj, label = .listen j (.leave obj) ∧ obj.messagePayload = payload := by
  cases inserted with
  | @listener j present obj phase same =>
      subst same
      have elsewhere {sys : System} {i : Nat} {next : Phase} {node : Node} (other : j ≠ i)
          (same : sys.listeners = self.sys.listeners) :
          (sys.proceed i next node).listeners j = .inserted present obj := by
        simp only [System.proceed]
        rw [Function.update_of_ne other, same, phase]
      cases step with
      | pow step => exact .inl (.listener (step.powStays.listeners.symm ▸ phase) rfl)
      | @listen k _ _ _ _ _ _ step =>
          cases step with
          | object _ _ _ _ _ free =>
              refine .inl (.listener (elsewhere ?_ rfl) rfl)
              rintro rfl
              cases free.symm.trans phase
          | leave _ step =>
              cases step with
              | leave left =>
                  by_cases mine : j = k
                  · subst mine
                    cases left.symm.trans phase
                    exact .inr (.inr ⟨j, obj, rfl, rfl⟩)
                  · exact .inl (.listener (elsewhere mine rfl) rfl)
          | announce _ step =>
              cases step with
              | announce inserted =>
                  by_cases mine : j = k
                  · subst mine
                    cases inserted.symm.trans phase
                    exact .inr (.inl (List.mem_singleton_self _))
                  · exact .inl (.listener (elsewhere mine rfl) rfl)
          | handle _ step =>
              cases step with
              | handle announced =>
                  refine .inl (.listener (elsewhere ?_ rfl) rfl)
                  rintro rfl
                  cases announced.symm.trans phase
          | _ => exact .inl (.listener phase rfl)
      | _ => exact .inl (.listener phase rfl)
  | @pow obj nonce phase same =>
      rcases step.pow_cases with ⟨act, rfl, moved⟩ | ⟨_, unmoved⟩
      · generalize after.sys = sys at moved
        cases moved with
        | take waiting => cases waiting.symm.trans phase
        | mine searching => cases searching.symm.trans phase
        | refuse searching => cases searching.symm.trans phase
        | publish inserted =>
            cases inserted.symm.trans phase
            rw [← same]
            exact .inr (.inl (List.mem_singleton_self _))
        | stop waiting => cases waiting.symm.trans phase
      · exact .inl (.pow (unmoved.trans phase) same)

theorem Step.stored {self after : Running} {label : Label} (sound : self.sys.node.Sound platform)
    (step : Step platform self label after) {payload : UString}
    (stored : self.sys.node.sharedObj.Stored payload) :
    after.sys.node.sharedObj.Stored payload := by
  rcases step.system with same | ⟨event, moved⟩
  · rwa [same]
  · exact moved.stored sound stored

theorem Step.hasTag {self after : Running} {label : Label} (sound : self.sys.node.Sound platform)
    (step : Step platform self label after) {tag : Block 32}
    (named : self.sys.node.hasTag platform tag = true) :
    after.sys.node.hasTag platform tag = true := by
  obtain ⟨payload, stored, same⟩ := Node.hasTag_iff.mp named
  exact Node.hasTag_iff.mpr ⟨payload, step.stored sound stored, same⟩

/-- What a step announces is stored. -/
theorem Step.announced {self after : Running} {label : Label}
    (inserted : ∀ payload, self.Inserted payload → self.sys.node.sharedObj.Stored payload)
    (step : Step platform self label after) :
    ∀ tag ∈ label.announced platform, after.sys.node.hasTag platform tag = true := by
  intro tag member
  cases step with
  | operate operation packets nodes announced =>
      exact Node.hasTag_iff.mpr ((operation.reports packets nodes announced).stored tag member)
  | pow step =>
      cases step with
      | publish waiting =>
          rw [List.mem_singleton.mp member]
          exact Node.hasTag_iff.mpr ⟨_, inserted _ (.pow waiting rfl), rfl⟩
      | _ => cases member
  | listen _ step =>
      cases step with
      | announce _ step =>
          cases step with
          | announce waiting =>
              rw [List.mem_singleton.mp member]
              exact Node.hasTag_iff.mpr ⟨_, inserted _ (.listener waiting rfl), rfl⟩
      | handle _ step announced =>
          cases step with
          | handle _ result =>
              obtain ⟨tags, reports⟩ := Node.handleObj_reports result
              have same := List.append_cancel_left (reports.newInv.symm.trans announced)
              rw [← same] at member
              exact Node.hasTag_iff.mpr (reports.stored tag member)
      | _ => cases member
  | _ => cases member

/-- What the peers are to know: the tags of the objects that the node had at first, and what was
announced since. -/
def Public (platform : Platform) (node : Node) (trace : List (Running × Label)) (tag : Block 32) :
    Prop :=
  node.hasTag platform tag = true ∨ tag ∈ along (fun _ label => label.announced platform) trace

theorem Public.more {node : Node} {trace : List (Running × Label)} {self : Running} {label : Label}
    {tag : Block 32} : Public platform node (trace ++ [(self, label)]) tag ↔
      Public platform node trace tag ∨ tag ∈ label.announced platform := by
  rw [Public, Public, along_append, along_singleton, List.mem_append, or_assoc]

/-- What is public is stored, and what is stored is public, but for what some thread has still
to announce or some listener has passed over. -/
structure Publishes (platform : Platform) (node : Node) (trace : List (Running × Label))
    (running : Running) : Prop where
  inserted : ∀ payload, running.Inserted payload → running.sys.node.sharedObj.Stored payload
  held : ∀ tag, Public platform node trace tag → running.sys.node.hasTag platform tag = true
  stored : ∀ payload, running.sys.node.sharedObj.Stored payload →
    Public platform node trace (Node.inventoryHash platform payload) ∨
      running.Inserted payload ∨ PassedOver trace payload

theorem Publishes.step {node : Node} {trace : List (Running × Label)} {self after : Running}
    {label : Label} (publishes : Publishes platform node trace self)
    (sound : self.sys.node.Sound platform) (step : Step platform self label after) :
    Publishes platform node (trace ++ [(self, label)]) after := by
  constructor
  · intro payload inserted
    rcases step.inserted_before inserted with before | stored
    · exact step.stored sound (publishes.inserted payload before)
    · exact stored
  · intro tag known
    rcases Public.more.mp known with before | announced
    · exact step.hasTag sound (publishes.held tag before)
    · exact step.announced publishes.inserted tag announced
  · intro payload stored
    have announced (now : Node.inventoryHash platform payload ∈ label.announced platform) :
        Public platform node (trace ++ [(self, label)]) (Node.inventoryHash platform payload) :=
      Public.more.mpr (.inr now)
    rcases step.stored_cases stored with old | inserted | now
    · rcases publishes.stored payload old with known | inserted | ⟨taken, member, left⟩
      · exact .inl (Public.more.mpr (.inl known))
      · rcases step.inserted_cases inserted with still | now | ⟨j, obj, left, same⟩
        · exact .inr (.inl still)
        · exact .inl (announced now)
        · exact .inr (.inr ⟨(self, label), by simp, j, obj, left, same⟩)
      · exact .inr (.inr ⟨taken, List.mem_append_left _ member, left⟩)
    · exact .inr (.inl inserted)
    · exact .inl (announced now)

theorem run_publishes {node : Node} {after : Running} {trace : List (Running × Label)}
    (reachable : System.Reachable platform (.idle node))
    (run : Run (Step platform) (start node) trace after) :
    Publishes platform node trace after := by
  have initial : Publishes platform node [] (start node) := by
    refine ⟨fun _ inserted => absurd inserted not_inserted_start, ?_,
      fun payload stored => .inl (.inl (Node.hasTag_iff.mpr ⟨payload, stored, rfl⟩))⟩
    rintro tag (named | announced)
    · exact named
    · cases announced
  refine @Run.invariant _ _ _ _ _ _ (fun _ _ => True) (Publishes platform node) initial ?_ run
    fun _ _ => trivial
  intro trace self label after before publishes _ step
  exact publishes.step (reachable_sys reachable before).sound step

end Running

/-! ## What a peer is told of -/

/-- Whatever has a shared object is listed. -/
theorem Node.Sound.mem_inventory {self : Node} (sound : self.Sound platform) {tag : Block 32}
    (named : self.hasTag platform tag = true) : tag ∈ self.inventory platform := by
  obtain ⟨payload, ⟨i, cur, member, rfl⟩, rfl⟩ := hasTag_iff.mp named
  refine List.mem_map.mpr ⟨cur, List.mem_flatMap.mpr ⟨i, List.mem_finRange i, member⟩, ?_⟩
  rw [(sound.addressed i cur member).hash_eq, platform.cBytes_block]

namespace Peer

/-- The tags that the peer is told of, in either way. -/
def Act.tells : Act → List (Block 32)
  | .listen (.tell tags) => tags
  | act => act.sent (Packet.tagsOf invName)

end Peer

namespace Running

def Label.tells (k : Nat) : Label → List (Block 32) := Label.on k Peer.Act.tells

theorem Label.mem_tells {k : Nat} {label : Label} {tag : Block 32} (member : tag ∈ label.told k) :
    tag ∈ label.tells k := by
  unfold told tells on at *
  cases act : label.act? k with
  | none =>
      rw [act] at member
      cases member
  | some found =>
      rw [act] at member
      rw [Option.elim_some] at member ⊢
      unfold Peer.Act.tells
      split
      next => cases member
      next => exact member

/-! ## Nothing falls between -/

/-- Where the public tags are, seen from the peer of connection `k`: it was told, `untold` has
them, or they are on their way. -/
def Covered (platform : Platform) (k : Nat) (node : Node) (trace : List (Running × Label))
    (self : Running) (untold : List (Block 32)) : Prop :=
  ∀ tag, Public platform node trace tag →
    tag ∈ along (fun _ label => label.tells k) trace ++ untold ++ self.pending k

/-- A step of the node keeps every public tag in one of these places. -/
theorem Covered.step {k : Nat} {node : Node} {trace : List (Running × Label)}
    {self after : Running} {label : Label} {untold : List (Block 32)}
    (covered : Covered platform k node trace self untold)
    (moved : Watched platform k self label after) :
    Covered platform k node (trace ++ [(self, label)]) after untold := by
  intro tag known
  have total := pending_conserves k moved
  have way (here : tag ∈ self.pending k ++ label.announced platform) :
      tag ∈ along (fun _ label => label.tells k) (trace ++ [(self, label)]) ++ untold ++
        after.pending k := by
    rw [← total] at here
    rcases List.mem_append.mp here with told | pending
    · simp [Label.mem_tells told]
    · simp [pending]
  rcases Public.more.mp known with before | announced
  · have place := covered tag before
    simp only [List.mem_append] at place
    rcases place with (told | rest) | pending
    · simp [told]
    · simp [rest]
    · exact way (List.mem_append_left _ pending)
  · exact way (List.mem_append_right _ announced)

/-- What holds of the peer of connection `k`: from the moment when the stored objects are listed,
nothing is missing. -/
structure Learns (platform : Platform) (k : Nat) (node : Node) (trace : List (Running × Label))
    (running : Running) : Prop where
  telling : ∀ peer rest, running.peers[k]? = some peer → peer.listener.untold = some rest →
    Covered platform k node trace running rest
  accepted : (∃ taken ∈ trace, taken.2 = .listen k .accept) →
    k < running.peers.length ∧ Covered platform k node trace running []

theorem Learns.step {k : Nat} {node : Node} {trace : List (Running × Label)}
    {self after : Running} {label : Label} (learns : Learns platform k node trace self)
    (publishes : Publishes platform node trace self) (sound : self.sys.node.Sound platform)
    (short : label.Short) (step : Step platform self label after) :
    Learns platform k node (trace ++ [(self, label)]) after := by
  -- both parts need the connection to be there already
  have moved {peer : Peer} (here : self.peers[k]? = some peer) :
      Watched platform k self label after :=
    ⟨(List.getElem?_eq_some_iff.mp here).1, short, step⟩
  constructor
  · intro peer rest here untold
    rcases step.listener_cases here with ⟨before, there, same⟩ | fresh |
      ⟨before, act, spawned, there, named, listen⟩
    · rw [same] at untold
      exact (learns.telling before rest there untold).step (moved there)
    · rw [fresh] at untold
      cases untold
    · have goesOn {tags : List (Block 32)} (front : before.listener.untold = some tags) :
          Covered platform k node (trace ++ [(self, label)]) after tags :=
        (learns.telling before tags there front).step (moved there)
      generalize same : after.sys = sys at listen
      cases listen with
      | write phase => exact goesOn (by rw [phase]; exact untold)
      | done phase => exact goesOn (by rw [phase]; exact untold)
      | collect phase =>
          simp only [ListenerPhase.untold, Option.some.injEq, List.drop_zero] at untold
          subst untold
          intro tag known
          have before : Public platform node trace tag := by
            rcases Public.more.mp known with before | announced
            · exact before
            · rw [Label.eq_listen named] at announced
              cases announced
          refine List.mem_append_left _ (List.mem_append_right _ ?_)
          exact sound.mem_inventory (publishes.held tag before)
      | @tell _ draws inventory i calls phase sends =>
          have covered := goesOn (show _ = some (inventory.drop i) by rw [phase]; rfl)
          have told : label.tells k = (Node.fillInv inventory i).1 := by
            rw [Label.tells, Label.on, named]
            rfl
          have left : rest = inventory.drop (Node.fillInv inventory i).2 := by
            rw [ListenerPhase.untold_tell] at untold
            exact (Option.some.inj untold).symm
          intro tag known
          have place := covered tag known
          rw [Node.fillInv_drop inventory i, ← left] at place
          simp only [List.mem_append] at place ⊢
          rcases place with (told' | here | behind) | pending
          · exact .inl (.inl told')
          · exact .inl (.inl (by simp [told, here]))
          · exact .inl (.inr behind)
          · exact .inr pending
      | version phase => exact goesOn untold
      | refuse phase => exact goesOn untold
      | announce phase => exact goesOn untold
      | other phase => exact goesOn untold
      | _ => cases untold
  · rintro ⟨taken, member, accept⟩
    rcases List.mem_append.mp member with earlier | now
    · obtain ⟨there, covered⟩ := learns.accepted ⟨taken, earlier, accept⟩
      exact ⟨Nat.lt_of_lt_of_le there step.peers_length, covered.step ⟨there, short, step⟩⟩
    · cases List.mem_singleton.mp now
      simp only at accept
      subst accept
      have longer := step.peers_length
      cases step with
      | listen here listen =>
          have there := (List.getElem?_eq_some_iff.mp here).1
          cases listen with
          | accept phase =>
              exact ⟨Nat.lt_of_lt_of_le there longer,
                (learns.telling _ [] here (by rw [phase]; rfl)).step (moved here)⟩

theorem run_learns {node : Node} {k : Nat} {after : Running} {trace : List (Running × Label)}
    (reachable : System.Reachable platform (.idle node))
    (run : Run (Step platform) (start node) trace after)
    (short : ∀ taken ∈ trace, Label.Short taken.2) : Learns platform k node trace after := by
  refine @Run.invariant _ _ _ _ _ _ (fun _ label => Label.Short label) (Learns platform k node) ?_
    ?_ run short
  · constructor
    · intro peer rest here
      cases here
    · rintro ⟨taken, member, _⟩
      cases member
  · intro trace self label after before learns short step
    exact learns.step (run_publishes reachable before) (reachable_sys reachable before).sound short
      step

/-- Once the peer of a connection was accepted, every object that the node had at first, and
everything that was announced, was among what it was told of, in the handler of `verack` or in what
its sender took, or the tag is on its way to it; of all that is stored, only what some thread has
still to announce, or some listener has passed over, is left out. -/
theorem accepted_peer_learns {node : Node} {k : Nat} {after : Running}
    {trace : List (Running × Label)} (reachable : System.Reachable platform (.idle node))
    (run : Run (Step platform) (start node) trace after)
    (short : ∀ taken ∈ trace, Label.Short taken.2)
    (accepted : ∃ taken ∈ trace, taken.2 = .listen k .accept) :
    (∀ tag, Public platform node trace tag →
      tag ∈ along (fun _ label => label.tells k) trace ++ after.pending k) ∧
    ∀ payload, after.sys.node.sharedObj.Stored payload →
      Public platform node trace (Node.inventoryHash platform payload) ∨
        after.Inserted payload ∨ PassedOver trace payload := by
  refine ⟨fun tag known => ?_, (run_publishes reachable run).stored⟩
  have covered := ((run_learns reachable run short).accepted accepted).2 tag known
  rwa [List.append_nil] at covered

/-- A peer of the node with one object. -/
theorem accepted_peer_learns_sample : ∃ trace after,
    Run (Step Platform.sample) (start Node.sampleStored) trace after ∧
    (∃ taken ∈ trace, taken.2 = .listen 0 .accept) ∧
    Node.inventoryHash Platform.sample Object.sample.messagePayload ∈
      along (fun _ label => label.tells 0) trace ++ after.pending 0 := by
  obtain ⟨trace, after, conn, run, session⟩ :=
    run_session Node.sampleStored Draws.sample Node.sampleVersion Node.sampleVerack_received
      Node.sampleVerack.cStr_command Node.sampleStored_few
  refine ⟨trace, after, run, session.accepts, ?_⟩
  exact (accepted_peer_learns Node.sampleStored_reachable run session.short session.accepts).1 _
    (.inl (Node.hasTag_iff.mpr ⟨_, Node.sampleStored_stored, rfl⟩))

end Running

end BitMRC
