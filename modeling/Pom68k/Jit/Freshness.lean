import Pom68k.Jit.Calm
import Pom68k.Jit.TracedLine

/-! # Blocks and memory along a run

A live block says what memory holds, or the guard knows that it no longer does and
will evict it before the next block is looked up. Stores keep this because the
footprint index is exact: a store the guard sees is recorded against every block
it touches, and a store it does not see touches none.
-/

namespace Pom68k.Jit

variable {ram : Ram} {cfg : Config} {remembered : Option Site} {e : Engine ram}

/-- What the engine's own structures need: good pointers, an exact index and a write
TLB that respects the guard. -/
structure Engine.Kept (cfg : Config) (e : Engine ram) : Prop where
  pointed : e.Pointed
  indexed : e.footprint.Indexed ram e.blocks
  dtlb : e.footprint.DtlbSound ram cfg.dtlbCodeMask

theorem Engine.Kept.micros {e e' : Engine ram} (kept : e.Kept cfg)
    (changes : Micros cfg remembered e e') : e'.Kept cfg :=
  micros_induct changes kept fun _ _ change good =>
    ⟨good.pointed.micro change, good.indexed.micro change, good.dtlb.micro good.indexed change⟩

theorem Engine.Kept.applyEvent (kept : e.Kept cfg) (event : CpuEvent ram) :
    (e.applyEvent cfg event).Kept cfg :=
  kept.micros (show Micros cfg none e (e.applyEvent cfg event) from micros_applyEvent e event)

namespace Machine

/-- Every live block is current or doomed, and the window shows its page unless a
flush is pending. No map of the machine is aliased. -/
structure Sound (cfg : Config) (m : Machine ram) : Prop where
  kept : m.engine.Kept cfg
  enabled : m.engine.enabled = true
  proper : m.engine.guard.Proper ram.slices
  fresh : ∀ k b, AList.lookup k m.engine.blocks = some b →
    m.Current b.ir ∨ m.engine.guard.Dooms b.ir
  window : ∀ w, m.engine.window = some w → m.Shows w ∨
    m.engine.guard.tripped = true ∧ m.engine.guard.mustFlush = true
  unaliased : ∀ setting, (m.maps setting).Unaliased

/-- Nothing is pending: every live block is current and the window shows its page. -/
structure Settled (cfg : Config) (m : Machine ram) : Prop extends m.Sound cfg where
  current : ∀ k b, AList.lookup k m.engine.blocks = some b → m.Current b.ir
  shows : ∀ w, m.engine.window = some w → m.Shows w

variable {m : Machine ram}

/-- A calm change of the engine keeps the machine sound. -/
theorem Sound.calm (sound : m.Sound cfg) (calm : m.engine.Calm e) (kept : e.Kept cfg) :
    Sound cfg { m with engine := e } := by
  refine ⟨kept, calm.enabled.trans sound.enabled, ?_, fun k b live => ?_, fun w armed => ?_,
    sound.unaliased⟩
  · rcases calm.guard with same | ⟨clear, _, _⟩
    · rw [same]
      exact sound.proper
    · rw [clear]
      exact fun h none => absurd none List.not_mem_nil
  · obtain ⟨b', live', ir⟩ := calm.blocks k b live
    rcases calm.guard with same | ⟨_, empty, _⟩
    · rw [ir, same]
      exact sound.fresh k b' live'
    · rw [empty k] at live
      cases live
  · rcases calm.guard with same | ⟨_, _, lost⟩
    · rw [same]
      rcases calm.window with kept | lost
      · exact sound.window w (kept ▸ armed)
      · rw [lost] at armed
        cases armed
    · rw [lost] at armed
      cases armed

theorem Settled.calm (settled : m.Settled cfg) (calm : m.engine.Calm e) (kept : e.Kept cfg) :
    Settled cfg { m with engine := e } := by
  refine ⟨settled.toSound.calm calm kept, fun k b live => ?_, fun w armed => ?_⟩
  · obtain ⟨b', live', ir⟩ := calm.blocks k b live
    rw [ir]
    exact settled.current k b' live'
  · rcases calm.window with kept | lost
    · exact settled.shows w (kept ▸ armed)
    · rw [lost] at armed
      cases armed

section

variable (sound : m.Sound cfg)
include sound

/-- A store the guard is not told of keeps the machine sound if it misses the live
blocks. -/
theorem Sound.poke {byte : Nat} (value : Byte)
    (misses : ∀ k b, AList.lookup k m.engine.blocks = some b → ¬ b.ir.Holds byte) :
    (m.poke byte value).Sound cfg := by
  refine ⟨sound.kept, sound.enabled, sound.proper, fun k b live => ?_, sound.window,
    sound.unaliased⟩
  refine (sound.fresh k b live).imp_left fun current => current.congr b.fits fun other holds => ?_
  refine m.view_poke value fun same => misses k b live ?_
  exact sound.unaliased _ byte other same.symm ▸ holds

theorem Sound.store (s : RamStore ram) : (m.applyBus cfg (.store s)).Sound cfg := by
  have length : (BitVec.ofNat 32 s.data.length).toNat = s.data.length := by
    have width := s.width
    rw [BitVec.toNat_ofNat]
    omega
  have some := s.some
  have width := s.width
  have room := s.room
  have small := ram.small
  have grows := m.engine.guard.grows_note ram.slices m.engine.footprint.pageMap s.phys
    (BitVec.ofNat 32 s.data.length)
  refine ⟨sound.kept.applyEvent (.store s.phys (BitVec.ofNat 32 s.data.length)), sound.enabled,
    sound.proper.note _ (by bv_omega), fun k b live => ?_, fun w armed => ?_, fun setting => ?_⟩
  · by_cases touched : ∃ byte, b.ir.Holds byte ∧ s.phys.toNat ≤ byte ∧
        byte < s.phys.toNat + s.data.length
    · obtain ⟨byte, holds, above, below⟩ := touched
      exact Or.inr (sound.kept.indexed.noted _ (by omega) (by omega) (by omega) above (by omega)
        live holds)
    · rcases sound.fresh k b live with current | doomed
      · refine Or.inl (current.congr b.fits fun byte holds => ?_)
        refine m.view_pokes _ _ fun i inside same => touched ⟨byte, holds, ?_⟩
        rw [sound.unaliased _ _ byte same.symm]
        omega
      · exact Or.inr (doomed.mono grows)
  · rcases sound.window w armed with shows | changed
    · refine Or.inl fun i inside => ?_
      rw [show (m.applyBus cfg (.store s)).map = m.map from pokes_map m _ _]
      exact shows i inside
    · exact Or.inr ⟨grows.tripped changed.1, grows.mustFlush changed.2⟩
  · rw [show (m.applyBus cfg (.store s)).maps = m.maps from (pokes_maps m _ _).1]
    exact sound.unaliased setting

/-- Whatever an executed instruction does, the machine stays sound. -/
theorem Sound.applyBus (event : BusEvent ram) : (m.applyBus cfg event).Sound cfg := by
  cases event with
  | store s => exact sound.store s
  | inlineStore i offset value =>
    unfold Machine.applyBus
    dsimp only
    split
    · exact sound
    rename_i byte reached
    refine sound.poke value fun k b live => ?_
    unfold inlineTarget at reached
    dsimp only at reached
    split at reached
    · cases reached
    rename_i page held
    split at reached
    · rename_i clear
      cases reached
      have offsets : (page * 4096 + offset) % 4096 = offset := by omega
      exact sound.kept.dtlb.misses sound.kept.indexed held (by omega)
        (by rw [offsets]; exact clear.2) live
    · cases reached
  | deviceStore byte value =>
    unfold Machine.applyBus
    dsimp only
    split
    · rename_i device
      refine sound.poke value fun k b live holds => ?_
      have readOnly := b.fits.readOnly byte holds device.1
      rw [device.2] at readOnly
      cases readOnly
    · exact sound
  | jitMapChanged setting =>
    have flush : (m.engine.applyEvent cfg .jitMapChanged).guard.mustFlush = true := by
      simp [Engine.applyEvent, CodeGuard.invalidate, CodeGuard.mustFlush]
    have tripped : (m.engine.applyEvent cfg .jitMapChanged).guard.tripped = true := by
      simp [Engine.applyEvent, CodeGuard.invalidate, CodeGuard.tripped]
    exact ⟨sound.kept.applyEvent .jitMapChanged, sound.enabled, sound.proper,
      fun _ _ _ => Or.inr ⟨tripped, Or.inl flush⟩, fun _ _ => Or.inr ⟨tripped, flush⟩,
      sound.unaliased⟩
  | flushAll => exact sound.calm (Engine.calm_flushAll _) (sound.kept.applyEvent .flushAll)
  | mapMoved =>
    exact sound.calm (Engine.calm_fields _ _ _ _ _ _ _ _ _ _) (sound.kept.applyEvent .mapMoved)
  | fillDtlb bus addr write =>
    exact sound.calm (Engine.calm_fields _ _ _ _ _ _ _ _ _ _)
      (sound.kept.applyEvent (.fillDtlb bus addr write))
  | atcEvict keepRead keepWrite keepWindow =>
    refine sound.calm ⟨rfl, rfl, Or.inl rfl, fun _ b live => ⟨b, live, rfl⟩, ?_⟩
      (sound.kept.applyEvent (.atcEvict keepRead keepWrite keepWindow))
    unfold Engine.applyEvent
    dsimp only
    split
    · exact Or.inl rfl
    · exact Or.inr rfl

theorem Sound.applyBusAll (events : List (BusEvent ram)) :
    (m.applyBusAll cfg events).Sound cfg := by
  induction events generalizing m with
  | nil => exact sound
  | cons event rest ih => exact ih (sound.applyBus event)

/-- Setting or clearing `running_` changes nothing else. -/
theorem Sound.running (running : Bool) : Sound cfg { m with engine := { m.engine with running } } :=
  ⟨⟨sound.kept.pointed, sound.kept.indexed, sound.kept.dtlb⟩, sound.enabled, sound.proper,
    sound.fresh, sound.window, sound.unaliased⟩

/-- Once the guard is serviced nothing is pending. -/
theorem Sound.serviceGuard (idle : m.engine.running = false) :
    Settled cfg { m with engine := m.engine.serviceGuard } := by
  have kept : m.engine.serviceGuard.Kept cfg :=
    sound.kept.micros (show Micros cfg none _ _ from Engine.micros_serviceGuard m.engine)
  by_cases tripped : m.engine.guard.tripped = true
  · have left := Engine.lookup_serviceGuard cfg sound.kept.indexed sound.enabled idle sound.proper
      tripped
    have current : ∀ k b, AList.lookup k m.engine.serviceGuard.blocks = some b →
        m.Current b.ir := by
      intro k b live
      obtain ⟨stays, before, spared⟩ := (left k b).mp live
      rcases sound.fresh k b before with current | ⟨_, flush | ⟨h, member, hit⟩⟩
      · exact current
      · cases stays.symm.trans flush
      · exact absurd hit (spared h member)
    have rest : m.engine.serviceGuard.enabled = true ∧ m.engine.serviceGuard.guard = {} ∧
        ∀ w, m.engine.serviceGuard.window = some w → m.Shows w := by
      unfold Engine.serviceGuard
      rw [if_neg (by rw [tripped]; decide)]
      split
      · unfold Engine.flushAll
        rw [idle, sound.enabled]
        exact ⟨sound.enabled, rfl, nofun⟩
      · rename_i stays
        have calm := Engine.calm_serviceHits m.engine m.engine.guard.hits
        refine ⟨calm.enabled.trans sound.enabled, rfl, fun w armed => ?_⟩
        rcases calm.window with same | lost
        · refine (sound.window w (same ▸ armed)).resolve_right fun flush => stays ?_
          rw [flush.2]
          rfl
        · exact absurd (lost.symm.trans armed) nofun
    obtain ⟨enabled, clear, shows⟩ := rest
    exact ⟨⟨kept, enabled, by rw [clear]; exact fun h none => absurd none List.not_mem_nil,
      fun k b live => Or.inl (current k b live), fun w armed => Or.inl (shows w armed),
      sound.unaliased⟩, current, shows⟩
  · have quiet : m.engine.serviceGuard = m.engine := by
      unfold Engine.serviceGuard
      rw [if_pos (by rw [Bool.eq_false_iff.mpr tripped]; rfl)]
    rw [quiet]
    refine ⟨sound, fun k b live => ?_, fun w armed => ?_⟩
    · exact (sound.fresh k b live).resolve_right fun doomed => tripped doomed.1
    · exact (sound.window w armed).resolve_right fun flush => tripped flush.1

end

end Machine

end Pom68k.Jit
