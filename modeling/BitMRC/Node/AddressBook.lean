import BitMRC.Foundation.Transition
import BitMRC.Node.Persistence

/-!
# The address book over runs

`PubAddresses` is written by `addAddr`, `getPubKey`, `processObj` and `load`.  In
place they only change entries as `PubAddr.Kept` allows, new entries go to the end,
and no address string comes in twice.
-/

namespace BitMRC

open Foundation UString

variable {platform : Platform}

/-- What all writers do to the address book. -/
structure BookGrows (before after : List PubAddr) : Prop where
  grows : Grows PubAddr.Kept before after
  distinct : (before.map PubAddr.address).Nodup → (after.map PubAddr.address).Nodup

namespace BookGrows

theorem refl (entries : List PubAddr) : BookGrows entries entries :=
  ⟨.refl PubAddr.Kept.refl entries, id⟩

theorem trans {first second third : List PubAddr} (one : BookGrows first second)
    (two : BookGrows second third) : BookGrows first third :=
  ⟨one.grows.trans (fun _ _ _ => PubAddr.Kept.trans) two.grows, fun distinct =>
    two.distinct (one.distinct distinct)⟩

/-- Entries that change in place. -/
theorem of_kept {before after : List PubAddr} (kept : List.Forall₂ PubAddr.Kept before after) :
    BookGrows before after := by
  refine ⟨.of_forall₂ kept, ?_⟩
  rw [Node.map_eq_of_forall₂ kept fun entry entry' changed => changed.address]
  exact id

theorem of_updated {before after : List PubAddr}
    (updated : List.Forall₂ (PubAddr.Updated platform) before after) : BookGrows before after :=
  of_kept (updated.imp fun _ _ changed => changed.kept)

end BookGrows

namespace Node

variable {draws : Draws platform} {uninit : Uninit} {self after : Node}

/-! ## One operation -/

/-- An entry is replaced only while it waits. -/
theorem mergeAddr_grows (address : PubAddr) (entries : List PubAddr) :
    Grows PubAddr.Kept entries (mergeAddr address entries) := by
  induction entries with
  | nil => exact .append PubAddr.Kept.refl [] [address]
  | cons entry rest ih =>
      rw [mergeAddr]
      split
      next same =>
        refine .cons ?_ (.refl PubAddr.Kept.refl rest)
        split
        next replaced =>
          have equal : entry.address = address.address := by simpa [PubAddr.same] using same
          have waits : entry.waitingPubKey = true := by
            simp only [Bool.and_eq_true] at replaced
            exact replaced.2
          exact .of_waiting equal.symm waits
        next => exact .refl entry
      next => exact .cons (.refl entry) ih

theorem mergeAddr_distinct (address : PubAddr) {entries : List PubAddr}
    (distinct : (entries.map PubAddr.address).Nodup) :
    ((mergeAddr address entries).map PubAddr.address).Nodup := by
  rw [mergeAddr_addresses]
  split
  next => exact distinct
  next new => exact distinct.append (List.nodup_singleton _) (List.disjoint_singleton.mpr new)

theorem addAddr_grows (self : Node) (address : PubAddr) :
    BookGrows self.pubAddresses (self.addAddr address).pubAddresses := by
  simp only [addAddr]
  split
  next => exact .refl _
  next => exact ⟨mergeAddr_grows address _, mergeAddr_distinct address⟩

theorem Change.book (change : Change platform self after) :
    BookGrows self.pubAddresses after.pubAddresses := by
  cases change with
  | share | adopt | publish => exact .refl _
  | learn address listed => exact addAddr_grows self address
  | update pubAddresses updated => exact .of_updated updated
  | other _ agrees =>
      rw [agrees.pubAddresses]
      exact .refl _

theorem Changes.book (changes : Changes platform self after) :
    BookGrows self.pubAddresses after.pubAddresses := by
  induction changes with
  | refl => exact .refl _
  | tail _ change ih => exact ih.trans change.book

/-- `processObj` of any object; sharing and announcing it leave the book alone. -/
theorem processObj_book {obj : Object} (result : self.processObj draws uninit obj = .ok after) :
    BookGrows self.pubAddresses after.pubAddresses := by
  unfold processObj at result
  obtain ⟨valid, _, result⟩ := bind_eq_ok.mp result
  cases valid with
  | false =>
      cases result
      exact .refl _
  | true =>
      simp only [if_true] at result
      split at result
      next =>
        cases result
        exact .refl _
      next =>
        have handled := (handleObj_changes result).book
        exact handled

/-- `getPubKey` of any address. -/
theorem getPubKey_book {address : PubAddr} (result : self.getPubKey draws address = .ok after) :
    BookGrows self.pubAddresses after.pubAddresses := by
  rcases getPubKey_cases result with ⟨_, rfl⟩ | ⟨entries, again, rfl⟩ |
    ⟨_, search, _, _, ⟨found, _, rfl⟩ | ⟨_, rfl⟩⟩
  · exact .refl _
  · have updated : List.Forall₂ (PubAddr.Updated platform) self.pubAddresses entries :=
      requestAgain_updated again
    exact .of_updated updated
  · exact addAddr_grows self found
  · exact addAddr_grows self _

theorem loadKeysFile_book {kFile : UString}
    (result : self.loadKeysFile platform uninit kFile = .ok after) :
    BookGrows self.pubAddresses after.pubAddresses := by
  refine @Cursor.drain_invariant _ _ _ _ _ _ _
    (fun node : Node => BookGrows self.pubAddresses node.pubAddresses) ?_ _ _ _ _ _ (.refl _)
    result
  intro node file position next value _ grows
  refine grows.trans ?_
  cases value with
  | own address => exact .refl _
  | entry address => exact addAddr_grows node address
  | nothing => exact .refl _

theorem loadObjectsFile_book {pFile : UString}
    (result : self.loadObjectsFile draws pFile = .ok after) :
    after.pubAddresses = self.pubAddresses := by
  refine @Cursor.drain_invariant _ _ _ _ _ _ _
    (fun node : Node => node.pubAddresses = self.pubAddresses) ?_ _ _ _ _ _ rfl result
  intro node file position next record _ same
  unfold addObject
  split
  · exact same
  · exact same

/-- `load` of any two files. -/
theorem load_book {pFile kFile : Option UString}
    (result : self.load draws uninit pFile kFile = .ok after) :
    BookGrows self.pubAddresses after.pubAddresses := by
  unfold load at result
  obtain ⟨loaded, keys, objects⟩ := bind_eq_ok.mp result
  have first : BookGrows self.pubAddresses loaded.pubAddresses := by
    cases kFile with
    | none =>
        cases keys
        exact .refl _
    | some file => exact loadKeysFile_book keys
  cases pFile with
  | none =>
      cases objects
      exact first
  | some file =>
      rw [loadObjectsFile_book objects]
      exact first

/-! ## Runs -/

/-- The calls that write the address book. -/
inductive BookCall (platform : Platform) where
  | addAddr (address : PubAddr)
  | getPubKey (draws : Draws platform) (address : PubAddr)
  | processObj (draws : Draws platform) (uninit : Uninit) (obj : Object)
  | load (draws : Draws platform) (uninit : Uninit) (pFile kFile : Option UString)

/-- A call that returns; one that throws ends the program. -/
def BookStep (platform : Platform) (self : Node) (call : BookCall platform) (after : Node) : Prop :=
  match call with
  | .addAddr address => self.addAddr address = after
  | .getPubKey draws address => self.getPubKey draws address = .ok after
  | .processObj draws uninit obj => self.processObj draws uninit obj = .ok after
  | .load draws uninit pFile kFile => self.load draws uninit pFile kFile = .ok after

theorem BookStep.book {call : BookCall platform} (step : BookStep platform self call after) :
    BookGrows self.pubAddresses after.pubAddresses := by
  cases call with
  | addAddr address =>
      rw [← (show self.addAddr address = after from step)]
      exact addAddr_grows self address
  | getPubKey draws address => exact getPubKey_book step
  | processObj draws uninit obj => exact processObj_book step
  | load draws uninit pFile kFile => exact load_book step

theorem run_book {trace : List (Node × BookCall platform)}
    (run : Run (BookStep platform) self trace after) :
    BookGrows self.pubAddresses after.pubAddresses :=
  @Run.state_invariant _ _ _ _ _ _ (fun node => BookGrows self.pubAddresses node.pubAddresses)
    (.refl _) (fun _ _ _ grows step => grows.trans step.book) run

/-- In a run from an empty node no address string ever stands in the book twice; an
entry stays in it for the rest of the run, and its keys stay with it. -/
theorem address_book_kept {now later : Node} {before behind : List (Node × BookCall platform)}
    (reached : Run (BookStep platform) Node.new before now)
    (goes : Run (BookStep platform) now behind later) :
    (now.pubAddresses.map PubAddr.address).Nodup ∧
    ∀ entry ∈ now.pubAddresses, ∃ entry' ∈ later.pubAddresses, entry.Kept entry' := by
  constructor
  · exact (run_book reached).distinct List.nodup_nil
  · intro entry member
    exact (run_book goes).grows.exists_mem member

/-- An address that waits for its keys. -/
def sampleWaiting : PubAddr :=
  { PubAddr.new ⟨0, 0, 0, 0⟩ with address := addressPrefix ++ [49] }

/-- The same address with its keys. -/
def sampleKnown : PubAddr :=
  { sampleWaiting with
    pubSigningKey := List.replicate 65 4, pubEncryptionKey := List.replicate 65 4, empty := false }

/-- The address waits first and gets its keys then. -/
theorem address_book_kept_sample :
    ((Node.new.addAddr sampleWaiting).pubAddresses.map PubAddr.address).Nodup ∧
    ∀ entry ∈ (Node.new.addAddr sampleWaiting).pubAddresses,
      ∃ entry' ∈ ((Node.new.addAddr sampleWaiting).addAddr sampleKnown).pubAddresses,
        entry.Kept entry' :=
  @address_book_kept Platform.sample _ _ _ _
    (.next .nil (show BookStep Platform.sample _ (.addAddr sampleWaiting) _ from rfl))
    (.next .nil (show BookStep Platform.sample _ (.addAddr sampleKnown) _ from rfl))

end Node

end BitMRC
