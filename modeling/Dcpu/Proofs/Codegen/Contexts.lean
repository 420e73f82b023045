import Dcpu.Proofs.Codegen.Accounts
import Dcpu.Proofs.Slots.Accounting
import Dcpu.Proofs.Slots.Flat

/-! # Compilations one after the other

A context lasts from one compilation to the next, whether or not the compilations fail. Between them
no slot is held and only the program's own scope is open, and the trail of the next compilation is
lawful for the ledger of the context.
-/

namespace Dcpu

open Source Effects Gen

/-- The ledger of an allocator between compilations. -/
def Ledger.start (slots : Slots) : Ledger where
  first := slots.first
  last := slots.last
  screen := slots.screen
  path := [0]
  scopes := slots.scopes.size
  held := []
  live := slots.current
  made := slots.made.size

section Start

variable {slots : Slots}

theorem Ledger.mirrors_start (consistent : slots.Consistent []) :
    (Ledger.start slots).Mirrors 0 slots :=
  ⟨⟨rfl, rfl, rfl⟩, consistent, ⟨[], consistent.root, rfl⟩, rfl, consistent.mem_current, rfl⟩

/-- A ledger that begins with variables of the program's own scope is sound. -/
theorem Ledger.sound_start (consistent : slots.Consistent []) (flat : slots.Flat) :
    (Ledger.start slots).Sound := by
  have live {binding : Binding} (member : binding ∈ (Ledger.start slots).live) : slots.Live binding :=
    (consistent.mem_current binding).mp member
  refine ⟨?_, ?_, ?_, ?_, ?_, ?_, ?_⟩
  · rw [addresses]
    apply List.Nodup.map_on _ consistent.nodup_current
    intro one oneMember other otherMember same
    exact consistent.eq_of_address (live oneMember) (live otherMember) same
  · intro address member
    rw [(mirrors_start consistent).mem_addresses] at member
    exact consistent.ranged.inside address member
  · exact List.pairwise_singleton _ _
  · intro scope member
    rw [List.mem_singleton.mp member]
    exact consistent.size_pos
  · intro binding member
    rw [flat binding (live member)]
    exact List.mem_singleton_self 0
  · intro binding member
    exact Slots.Consistent.number_lt (live member)
  · intro one oneMember other otherMember same
    exact Option.some.inj ((live oneMember).2.symm.trans (same ▸ (live otherMember).2))

end Start

namespace Context

/-- The ledger of a context after some events. -/
def ledgerAt (context : Context) (events : List Event) : Ledger :=
  (Ledger.start context.slots).replay events

theorem ledgerAt_append (context : Context) (events more : List Event) :
    context.ledgerAt (events ++ more) = (context.ledgerAt events).replay more :=
  Ledger.replay_append ..

/-- The contexts that compilations leave, beginning with a fresh one. -/
inductive Reached (settings : Settings) : Context → Prop where
  | new : Reached settings (.new settings)
  | compile {context : Context} (haltLoop : Bool) (program : Program) : Reached settings context →
      Reached settings (context.compile haltLoop program).context

variable {settings : Settings} {context : Context} {haltLoop : Bool} {program : Program}
  {past : List Event}

/-- A compilation leaves the context and the trail of its last state. -/
theorem compile_eq (context : Context) (haltLoop : Bool) (program : Program) :
    (context.compile haltLoop program).context =
        ((programCode haltLoop program).after (.start context)).context ∧
      (context.compile haltLoop program).trail =
        ((programCode haltLoop program).after (.start context)).trail := by
  rw [compile, after, Emission.start]
  cases programCode haltLoop program ⟨context, 0, #[]⟩ <;> exact ⟨rfl, rfl⟩

/-- The trail of a compilation is lawful for the ledger of a context without open scopes. -/
theorem compile_records (consistent : context.slots.Consistent []) (haltLoop : Bool) (program : Program) :
    (Emission.start context).Records (.start context.slots) 0
      (context.compile haltLoop program).trail.toList
      ((programCode haltLoop program).after (.start context)) := by
  obtain ⟨events, records⟩ := programCode_keeps haltLoop program _ (.start context)
    (Ledger.mirrors_start consistent) (by simp)
  have trail : (context.compile haltLoop program).trail.toList = events := by
    rw [(compile_eq context haltLoop program).2, records.trail]
    rfl
  rw [trail]
  exact records

/-- Between compilations the tables are consistent, no slot is held, and all variables belong to the
program's own scope. -/
theorem Reached.flat (reached : context.Reached settings) :
    context.slots.Consistent [] ∧ context.slots.Flat := by
  induction reached with
  | new =>
    refine ⟨Slots.consistent_new _ _ _, fun binding live => ?_⟩
    exact absurd live (Slots.not_live_new _ _ _ binding)
  | @compile context haltLoop program _ ih =>
    obtain ⟨consistent, flat⟩ := ih
    have records := compile_records consistent haltLoop program
    have sound := (Ledger.sound_start consistent flat).replay records.lawful
    rw [(compile_eq context haltLoop program).1]
    refine ⟨?_, fun binding live => ?_⟩
    · have mirrors := records.mirrors.consistent
      rwa [records.held] at mirrors
    · have enclosed := sound.enclosed binding ((records.mirrors.live binding).mpr live)
      rw [records.path] at enclosed
      exact List.mem_singleton.mp enclosed

theorem Reached.sound (reached : context.Reached settings) : (Ledger.start context.slots).Sound :=
  Ledger.sound_start reached.flat.1 reached.flat.2

/-- What has happened up to any moment of a compilation is lawful. -/
theorem Reached.lawful (reached : context.Reached settings)
    (moment : past <+: (context.compile haltLoop program).trail.toList) :
    (Ledger.start context.slots).Lawful past := by
  obtain ⟨future, whole⟩ := moment
  have records := compile_records reached.flat.1 haltLoop program
  rw [← whole] at records
  exact (Ledger.lawful_append.mp records.lawful).1

end Context

end Dcpu
