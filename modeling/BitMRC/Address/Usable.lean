import BitMRC.Address.FailedLoads
import BitMRC.Foundation.Transition

/-!
# Whether loaded keys are there

`waitingPubKey` reads a flag that `loadAddr` sets and both `loadKeys` clear, and `Addr`
declares the public keys of its base class again.  This module follows an object of
either class through loads and copies, and says for which calls the flag and the keys
that the object gives out agree.
-/

namespace BitMRC

open Foundation UString PubAddr

variable {platform : Platform}

/-! ## Objects and calls -/

/-- The copy constructor of `Addr`, which leaves the keys of the base class empty. -/
def Addr.copy (self : Addr) : Addr :=
  { self with base := { self.base with pubSigningKey := [], pubEncryptionKey := [] } }

/-- An object of one of the two classes. -/
inductive AddrObject where
  | pub (self : PubAddr)
  | own (self : Addr)
  deriving DecidableEq

inductive AddrCall where
  | loadAddr (address : UString)
  /-- `PubAddr::loadKeys`, on an `Addr` too. -/
  | loadPubKeys (skey ekey : UString) (nonce extra : Int32)
  /-- `Addr::loadKeys`. -/
  | loadKeys (pubE pubS privE privS : UString) (stream version : Int32)
  /-- The copy constructor; the run goes on with the copy. -/
  | copy
  /-- `operator=` to another object of the class. -/
  | assign
  /-- The copy constructor of `PubAddr` on an `Addr`. -/
  | slice
  deriving DecidableEq

/-- One of the two `loadKeys`. -/
def AddrCall.LoadsKeys : AddrCall → Prop
  | loadPubKeys .. => True
  | loadKeys .. => True
  | _ => False

namespace AddrObject

/-- The members of the base class. -/
def base : AddrObject → PubAddr
  | pub self => self
  | own self => self.base

def waitingPubKey (self : AddrObject) : Bool := self.base.waitingPubKey

/-- `getPubSigningKey` of the class. -/
def pubSigningKey : AddrObject → UString
  | pub self => self.pubSigningKey
  | own self => self.pubSigningKey

/-- `getPubEncryptionKey` of the class. -/
def pubEncryptionKey : AddrObject → UString
  | pub self => self.pubEncryptionKey
  | own self => self.pubEncryptionKey

/-- A constructor of one of the classes was just run. -/
def Fresh (self : AddrObject) : Prop :=
  ∃ uninit, self = pub (PubAddr.new uninit) ∨ self = own (Addr.new uninit)

/-- A call and what it returns: nothing from a copy or when it throws. -/
inductive Step (platform : Platform) : AddrObject → AddrCall × Option Bool → AddrObject → Prop
  | loadAddr {self after : PubAddr} {address : UString} {loaded : Bool}
      (load : self.loadAddr platform address = .ok (loaded, after)) :
      Step platform (pub self) (.loadAddr address, some loaded) (pub after)
  | ownLoadAddr {self : Addr} {base : PubAddr} {address : UString} {loaded : Bool}
      (load : self.base.loadAddr platform address = .ok (loaded, base)) :
      Step platform (own self) (.loadAddr address, some loaded) (own { self with base })
  -- it can only throw in front of its first assignment
  | throws {self : AddrObject} {address : UString} {failure : Exn}
      (load : self.base.loadAddr platform address = .error failure)
      (defined : failure ≠ .undefined) : Step platform self (.loadAddr address, none) self
  | loadPubKeys {self after : PubAddr} {skey ekey : UString} {nonce extra : Int32} {loaded : Bool}
      (load : self.loadKeys skey ekey nonce extra = (loaded, after)) :
      Step platform (pub self) (.loadPubKeys skey ekey nonce extra, some loaded) (pub after)
  | ownLoadPubKeys {self : Addr} {base : PubAddr} {skey ekey : UString} {nonce extra : Int32}
      {loaded : Bool} (load : self.base.loadKeys skey ekey nonce extra = (loaded, base)) :
      Step platform (own self) (.loadPubKeys skey ekey nonce extra, some loaded)
        (own { self with base })
  | loadKeys {self after : Addr} {pubE pubS privE privS : UString} {stream version : Int32}
      {loaded : Bool} (load : self.loadKeys platform pubE pubS privE privS stream version =
        .ok (loaded, after)) :
      Step platform (own self) (.loadKeys pubE pubS privE privS stream version, some loaded)
        (own after)
  | copy (self : PubAddr) : Step platform (pub self) (.copy, none) (pub self)
  | ownCopy (self : Addr) : Step platform (own self) (.copy, none) (own self.copy)
  | assign (self : AddrObject) : Step platform self (.assign, none) self
  | slice (self : Addr) : Step platform (own self) (.slice, none) (pub self.base)

/-! ## Keys that can be used -/

/-- The uncompressed form of a public key. -/
def Formed (key : UString) : Prop := key.length = 65 ∧ key.head? = some 4

instance (key : UString) : Decidable (Formed key) := inferInstanceAs (Decidable (_ ∧ _))

/-- An uncompressed public key, or one without its prefix. -/
def Complete (key : UString) : Prop := key.length = 64 ∨ Formed key

instance (key : UString) : Decidable (Complete key) := inferInstanceAs (Decidable (_ ∨ _))

/-- Both keys that the object gives out have their form. -/
def HasKeys (self : AddrObject) : Prop := Formed self.pubSigningKey ∧ Formed self.pubEncryptionKey

/-- An object that does not wait for its keys has them. -/
def Sound (self : AddrObject) : Prop := self.waitingPubKey = false → self.HasKeys

/-- What a step promises: a sound object, and one with keys when they were loaded. -/
def Delivers (label : AddrCall × Option Bool) (after : AddrObject) : Prop :=
  after.Sound ∧ (label.1.LoadsKeys → label.2 = some true →
    after.waitingPubKey = false ∧ after.HasKeys)

theorem keptKey_formed {key : UString} : Formed (keptKey key) ↔ Complete key := by
  unfold keptKey storedKey Complete Formed
  split
  next plain => simp [plain]
  split
  next long =>
    split
    next prefixed => simp [long, prefixed]
    next other => simp [long, other]
  next other long => simp [other, long]

theorem not_formed_nil : ¬Formed [] := by decide

/-- A fresh object waits for its keys. -/
theorem Fresh.sound {self : AddrObject} (fresh : self.Fresh) : self.Sound := by
  obtain ⟨uninit, rfl | rfl⟩ := fresh <;> intro known <;> cases known

/-! ## What one call does to the flag and the keys -/

end AddrObject

/-- `loadAddr` leaves the keys alone; the flag is set or stays. -/
theorem PubAddr.loadAddr_keeps {self after : PubAddr} {address : UString} {loaded : Bool}
    (load : self.loadAddr platform address = .ok (loaded, after)) :
    after.pubSigningKey = self.pubSigningKey ∧ after.pubEncryptionKey = self.pubEncryptionKey ∧
      (after.empty = true ∨ after.empty = self.empty) := by
  unfold loadAddr at load
  cases decoded : decodeAddress platform address with
  | error failure =>
      rw [decoded] at load
      cases load
  | ok checked =>
      rw [decoded] at load
      cases checked with
      | none =>
          cases load
          exact ⟨rfl, rfl, .inr rfl⟩
      | some body =>
          have result : self.loadBody platform address body = (loaded, after) :=
            Except.ok.inj load
          rcases loadBody_cases platform self address body with fails |
            ⟨version, stream, ripe, _, _, _, loads⟩
          · cases fails.symm.trans result
            exact ⟨rfl, rfl, .inr rfl⟩
          · cases loads.symm.trans result
            exact ⟨rfl, rfl, .inl rfl⟩

/-- The `loadAddr` at the end of `Addr::loadKeys` sets the flag again. -/
theorem Addr.waits_of_loadKeys {self after : Addr} {pubE pubS privE privS : UString}
    {stream version : Int32}
    (load : self.loadKeys platform pubE pubS privE privS stream version = .ok (true, after)) :
    after.base.waitingPubKey = true := by
  rcases Addr.loadKeys_cases load with ⟨wrong, _⟩ | ⟨kept, address, base, _, _, body, split⟩
  · cases wrong
  · obtain ⟨_, _, _, _, _, _, rfl⟩ := loadBody_eq_true_iff.mp body
    rw [split]
    rfl

namespace AddrObject

/-- A call behind which an object that was sound is sound, with keys if they were loaded. -/
def Keeps (platform : Platform) : AddrObject → AddrCall → Prop
  | pub self, .loadPubKeys skey ekey _ _ =>
      if WrongPrefix ekey ∨ WrongPrefix skey then self.empty = true
      else Complete skey ∧ Complete ekey
  | own self, .loadPubKeys skey ekey _ _ =>
      WrongPrefix ekey ∨ WrongPrefix skey ∨ (own self).HasKeys
  | own self, .loadKeys pubE pubS privE privS _ _ =>
      if WrongPrefix pubE ∨ WrongPrefix pubS then self.base.empty = true
      else if privE.length = 32 ∧ privS.length = 32 then
        ¬Addr.LoadsBack platform pubE pubS ∧ Complete pubS ∧ Complete pubE
      else self.base.empty = true ∨ (Complete pubS ∧ Complete pubE)
  | own self, .slice => self.base.empty = true ∨ (pub self.base).HasKeys
  | _, _ => True

theorem sound_iff (self : AddrObject) :
    self.Sound ↔ self.base.empty = true ∨ self.HasKeys := by
  unfold Sound waitingPubKey PubAddr.waitingPubKey
  cases self.base.empty <;> simp

theorem loadPubKeys_delivers_iff {self after : PubAddr} {skey ekey : UString}
    {nonce extra : Int32} {loaded : Bool}
    (load : self.loadKeys skey ekey nonce extra = (loaded, after)) :
    Delivers (.loadPubKeys skey ekey nonce extra, some loaded) (pub after) ↔
      (pub self).Keeps platform (.loadPubKeys skey ekey nonce extra) := by
  by_cases wrong : WrongPrefix ekey ∨ WrongPrefix skey
  · rw [self.loadKeys_of_wrong nonce extra wrong] at load
    cases load
    simp [Delivers, Keeps, wrong, sound_iff, base, HasKeys, pubSigningKey, not_formed_nil]
  · have right := wrong
    rw [not_or] at right
    rw [self.loadKeys_of_right nonce extra right.1 right.2] at load
    cases load
    simp [Delivers, Keeps, wrong, sound_iff, base, HasKeys, pubSigningKey, pubEncryptionKey,
      keptKey_formed, AddrCall.LoadsKeys, waitingPubKey, PubAddr.waitingPubKey]

theorem ownLoadPubKeys_delivers_iff {self : Addr} {after : PubAddr} {skey ekey : UString}
    {nonce extra : Int32} {loaded : Bool} (sound : (own self).Sound)
    (load : self.base.loadKeys skey ekey nonce extra = (loaded, after)) :
    Delivers (.loadPubKeys skey ekey nonce extra, some loaded) (own { self with base := after }) ↔
      (own self).Keeps platform (.loadPubKeys skey ekey nonce extra) := by
  by_cases wrong : WrongPrefix ekey ∨ WrongPrefix skey
  · rw [self.base.loadKeys_of_wrong nonce extra wrong] at load
    cases load
    rw [sound_iff] at sound
    simp only [Delivers, Keeps, sound_iff]
    exact ⟨fun _ => or_assoc.mp (.inl wrong), fun _ => ⟨sound, fun _ none => by cases none⟩⟩
  · have right := wrong
    rw [not_or] at right
    rw [self.base.loadKeys_of_right nonce extra right.1 right.2] at load
    cases load
    simp [Delivers, Keeps, right, sound_iff, base, HasKeys, pubSigningKey, pubEncryptionKey,
      AddrCall.LoadsKeys, waitingPubKey, PubAddr.waitingPubKey]

/-- An exit in front of the address leaves the flag as it was. -/
theorem exit_delivers_iff (self : Addr) (call : AddrCall) (pubE pubS privE privS : UString) :
    Delivers (call, some false) (own (self.withKeys pubE pubS privE privS)) ↔
      self.base.empty = true ∨ (Formed pubS ∧ Formed pubE) := by
  rw [Delivers, sound_iff]
  exact ⟨fun delivers => delivers.1, fun sound => ⟨sound, fun _ none => by cases none⟩⟩

theorem loadKeys_delivers_iff {self after : Addr} {pubE pubS privE privS : UString}
    {stream version : Int32} {loaded : Bool}
    (load : self.loadKeys platform pubE pubS privE privS stream version = .ok (loaded, after)) :
    Delivers (.loadKeys pubE pubS privE privS stream version, some loaded) (own after) ↔
      (own self).Keeps platform (.loadKeys pubE pubS privE privS stream version) := by
  have exits := self.storeKeys_eq pubE pubS privE privS
  simp only [Keeps]
  by_cases wrong : WrongPrefix pubE ∨ WrongPrefix pubS
  · have exit : ∃ keptE, self.storeKeys pubE pubS privE privS =
        (false, self.withKeys keptE [] [] []) := by
      rw [exits]
      split
      next => exact ⟨_, rfl⟩
      next encryption => exact ⟨_, if_pos (wrong.resolve_left encryption)⟩
    obtain ⟨keptE, exit⟩ := exit
    cases (Addr.loadKeys_of_exit exit stream version).symm.trans load
    rw [exit_delivers_iff, if_pos wrong]
    simp [not_formed_nil]
  have right := wrong
  rw [not_or] at right
  rw [if_neg right.1, if_neg right.2] at exits
  rw [if_neg wrong]
  by_cases lengths : privE.length = 32 ∧ privS.length = 32
  · obtain ⟨address, _, loads, same⟩ := (Addr.RightForm.loadKeys_eq
      ⟨right.1, right.2, lengths.1, lengths.2⟩ self stream version).mp load
    rw [if_pos lengths]
    by_cases long : Addr.LoadsBack platform pubE pubS
    · rw [decide_eq_true long] at loads
      subst loads
      refine ⟨fun delivers => ?_, fun keeps => absurd long keeps.1⟩
      cases (Addr.waits_of_loadKeys load).symm.trans (delivers.2 trivial rfl).1
    · rw [if_neg long] at same
      rw [decide_eq_false long] at loads
      subst same loads
      simp [Delivers, sound_iff, base, HasKeys, pubSigningKey, pubEncryptionKey, Addr.withKeys,
        keptKey_formed, long]
  · have exit : ∃ keptPrivE, self.storeKeys pubE pubS privE privS =
        (false, self.withKeys (keptKey pubE) (keptKey pubS) keptPrivE []) := by
      rw [exits]
      split
      next => exact ⟨_, rfl⟩
      next privE32 => exact ⟨_, if_pos fun privS32 => lengths ⟨not_not.mp privE32, privS32⟩⟩
    obtain ⟨keptPrivE, exit⟩ := exit
    cases (Addr.loadKeys_of_exit exit stream version).symm.trans load
    rw [exit_delivers_iff, if_neg lengths, keptKey_formed, keptKey_formed]

/-! ## Steps and runs -/

/-- Behind a sound object a step delivers what it promises if and only if its call keeps
the flag and the keys together. -/
theorem Step.delivers_iff {self after : AddrObject} {label : AddrCall × Option Bool}
    (step : Step platform self label after) (sound : self.Sound) :
    Delivers label after ↔ self.Keeps platform label.1 := by
  have kept {address : UString} {returned : Option Bool} (after : AddrObject)
      (soundAfter : after.Sound) : Delivers (.loadAddr address, returned) after :=
    ⟨soundAfter, fun loads => loads.elim⟩
  cases step with
  | loadAddr load =>
      obtain ⟨signing, encryption, flag⟩ := loadAddr_keeps load
      refine iff_of_true (kept _ ?_) trivial
      rw [sound_iff] at sound ⊢
      simp only [HasKeys, base, pubSigningKey, pubEncryptionKey] at sound ⊢
      rw [signing, encryption]
      rcases flag with set | same
      · exact .inl set
      · rwa [same]
  | ownLoadAddr load =>
      obtain ⟨_, _, flag⟩ := loadAddr_keeps load
      refine iff_of_true (kept _ ?_) trivial
      rw [sound_iff] at sound ⊢
      rcases flag with set | same
      · exact .inl set
      · simp only [HasKeys, base, pubSigningKey, pubEncryptionKey] at sound ⊢
        rwa [same]
  | throws load defined => exact iff_of_true (kept _ sound) (by cases self <;> trivial)
  | loadPubKeys load => exact loadPubKeys_delivers_iff load
  | ownLoadPubKeys load => exact ownLoadPubKeys_delivers_iff sound load
  | loadKeys load => exact loadKeys_delivers_iff load
  | copy self => exact iff_of_true ⟨sound, fun loads => loads.elim⟩ trivial
  | ownCopy self => exact iff_of_true ⟨sound, fun loads => loads.elim⟩ trivial
  | assign self =>
      exact iff_of_true ⟨sound, fun loads => loads.elim⟩ (by cases self <;> trivial)
  | slice self =>
      rw [Delivers, sound_iff]
      exact ⟨fun delivers => delivers.1, fun keeps => ⟨keeps, fun loads => loads.elim⟩⟩

/-- At the end of a run the object is sound, with keys if the last call loaded them. -/
def EndsWell (trace : List (AddrObject × (AddrCall × Option Bool))) (after : AddrObject) : Prop :=
  after.Sound ∧ ∀ last ∈ trace.getLast?, Delivers last.2 after

end AddrObject

/-- From a fresh object on, every state of a run is as promised if and only if every call
of the run keeps the flag and the keys together. -/
theorem key_loads_usable_iff {start after : AddrObject}
    {trace : List (AddrObject × (AddrCall × Option Bool))} (fresh : start.Fresh)
    (run : Run (AddrObject.Step platform) start trace after) :
    (∀ first state, first <+: trace → Run (AddrObject.Step platform) start first state →
      AddrObject.EndsWell first state) ↔
        ∀ taken ∈ trace, taken.1.Keeps platform taken.2.1 := by
  constructor
  · intro endsWell
    induction run with
    | nil =>
        intro taken none
        cases none
    | @next trace state after label before move ih =>
        have earlier := fun first other (inside : first <+: trace) =>
          endsWell first other (inside.trans (List.prefix_append _ _))
        have state_sound := (earlier _ _ (List.prefix_refl _) before).1
        have last := endsWell _ _ (List.prefix_refl _) (before.next move)
        intro taken member
        rcases List.mem_append.mp member with old | new
        · exact ih earlier taken old
        · cases List.mem_singleton.mp new
          exact (move.delivers_iff state_sound).mp (last.2 (state, label) (by simp))
  · intro keeps first state inside reached
    refine @Run.invariant _ _ _ _ _ _ (fun self label => self.Keeps platform label.1)
      AddrObject.EndsWell ?_ ?_ reached ?_
    · exact ⟨fresh.sound, by simp⟩
    · intro trace state label after _ well keep move
      have delivers := (move.delivers_iff well.1).mpr keep
      refine ⟨delivers.1, ?_⟩
      simp only [List.getLast?_append, List.getLast?_singleton, Option.some_or,
        Option.mem_some_iff]
      rintro _ rfl
      exact delivers
    · exact fun taken member => keeps taken (inside.subset member)

/-- Keys of 64 bytes keep the promise. -/
theorem key_loads_usable_iff_sample :
    AddrObject.EndsWell
      [(.pub (PubAddr.new ⟨0, 0, 0, 0⟩),
        (.loadPubKeys (List.replicate 64 1) (List.replicate 64 2) 7 8, some true))]
      (.pub ((PubAddr.new ⟨0, 0, 0, 0⟩).loadKeys (List.replicate 64 1) (List.replicate 64 2)
        7 8).2) := by
  have move : AddrObject.Step Platform.sample (.pub (PubAddr.new ⟨0, 0, 0, 0⟩))
      (.loadPubKeys (List.replicate 64 1) (List.replicate 64 2) 7 8, some true)
      (.pub ((PubAddr.new ⟨0, 0, 0, 0⟩).loadKeys (List.replicate 64 1) (List.replicate 64 2)
        7 8).2) := .loadPubKeys rfl
  have run := Run.nil.next move
  refine (key_loads_usable_iff ⟨_, .inl rfl⟩ run).mpr ?_ _ _ (List.prefix_refl _) run
  intro taken member
  cases List.mem_singleton.mp member
  change if WrongPrefix (List.replicate 64 2) ∨ WrongPrefix (List.replicate 64 1) then true = true
    else AddrObject.Complete (List.replicate 64 1) ∧ AddrObject.Complete (List.replicate 64 2)
  decide

/-- Behind a `loadKeys` of `Addr` that returned true the object waits for its keys. -/
theorem AddrObject.not_endsWell_sample :
    let call := AddrCall.loadKeys (getPubOfPriv Platform.sample (Addr.samplePriv 1))
      (getPubOfPriv Platform.sample (Addr.samplePriv 1)) (Addr.samplePriv 1) (Addr.samplePriv 1)
      1 4
    Run (Step Platform.sample) (own (Addr.new ⟨0, 0, 0, 0⟩))
      [(own (Addr.new ⟨0, 0, 0, 0⟩), (call, some true))] (own (Addr.sample 1)) ∧
    ¬EndsWell [(own (Addr.new ⟨0, 0, 0, 0⟩), (call, some true))] (own (Addr.sample 1)) := by
  have load := (Addr.sample_spec 1).1
  refine ⟨Run.nil.next (.loadKeys load), fun well => ?_⟩
  cases (Addr.waits_of_loadKeys load).symm.trans ((well.2 _ rfl).2 trivial rfl).1

end BitMRC
