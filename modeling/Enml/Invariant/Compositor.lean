import Enml.OsDisplay.Compositor

/-! The invariant of the surface table, and how each kind of change keeps it: a
surface is added, surfaces are cleared, or the surfaces stay and some of their
fields are rewritten. -/
namespace Enml.OsDisplay

open Enml.Core List SlotTable OsDisplay Slot

variable {generation : UInt64} {serial : UInt32}

/-- A rectangle of the display, in its coordinates. -/
def Rect.Inside (r : Rect) (size : PixelSize) : Prop :=
  0 ≤ r.x.toInt ∧ 0 ≤ r.y.toInt ∧ 0 < r.width.toNat ∧ 0 < r.height.toNat ∧
    r.x.toInt + r.width.toNat ≤ size.width.toNat ∧ r.y.toInt + r.height.toNat ≤ size.height.toNat

/-- How far a counter has come that starts at one and stands at zero when it has
run out. -/
def given (limit next : Nat) : Nat := if next = 0 then limit else next

namespace Compositor

/-- The surfaces in the table. -/
def surfaces (c : Compositor) : List Slot := entries key c.slots

def surfacesGiven (c : Compositor) : Nat := given (2 ^ 32) c.nextSurfaceSerial.toNat

def stacksGiven (c : Compositor) : Nat := given (2 ^ 64) c.nextStackSerial.toNat

def isApplication (s : Slot) : Bool := s.descriptor.role == .application

/-- The surface belongs to the application surface `p`. -/
structure BelongsTo (s p : Slot) : Prop where
  id : p.descriptor.id = s.descriptor.parent
  role : p.descriptor.role = .application
  owner : p.descriptor.owner = s.descriptor.owner
  stack : p.stackSerial = s.stackSerial

/-- What holds of the table whatever the callers do. -/
structure Coherent (c : Compositor) : Prop where
  count : c.surfaceCount.toNat = c.surfaces.length
  limit : c.surfaces.length ≤ maxSurfaces
  quota : ∀ principal, (c.surfaces.countP fun s => s.descriptor.owner.principal == principal) ≤
    maxSurfacesPerPrincipal
  ids : (c.surfaces.map fun s => s.descriptor.id).Nodup
  popups : ∀ s ∈ c.surfaces, s.descriptor.role = .popup → ∃ p ∈ c.surfaces, BelongsTo s p
  applications : ((c.surfaces.filter isApplication).map fun s => s.descriptor.owner.process).Nodup
  stackSerials : ((c.surfaces.filter isApplication).map fun s => s.stackSerial).Nodup
  trusted : ∀ s ∈ c.surfaces, (s.descriptor.role = .systemChrome →
      s.descriptor.owner.principal = c.trustedPrincipals.shell) ∧
    (s.descriptor.role = .secureSystem →
      s.descriptor.owner.principal = c.trustedPrincipals.secureUi)
  inside : ∀ s ∈ c.surfaces, s.descriptor.bounds.Inside c.configuration.size
  framed : ∀ s ∈ c.surfaces, (s.hasFrame = true ↔ s.buffer ≠ 0)

/-- The invariant: coherence, and what later steps need to keep it. -/
structure Sound (c : Compositor) : Prop extends Coherent c where
  length : c.slots.length = maxSurfaces
  issued : ∀ s ∈ c.surfaces, ∃ serial : UInt32, serial.toNat < c.surfacesGiven ∧ serial ≠ 0 ∧
    s.descriptor.id = makeDisplayObjectValue c.objectGeneration.toUInt64 serial
  stacked : ∀ s ∈ c.surfaces, isApplication s = true → s.stackSerial.toNat < c.stacksGiven
  roots : ∀ s ∈ c.surfaces, s.descriptor.role ≠ .popup → s.descriptor.parent = 0
  owners : ∀ s ∈ c.surfaces, validPeerIdentity s.descriptor.owner = true
  generation : c.valid = true → validDisplayGeneration c.objectGeneration.toUInt64 = true

end Compositor

theorem Rect.inside_of_fits {r : Rect} {size : PixelSize}
    (h : r.fits size.width size.height = true) : r.Inside size := by
  unfold Rect.fits Rect.nonempty at h
  simp only [Bool.and_eq_true, bne_iff_ne, ne_eq, decide_eq_true_eq] at h
  obtain ⟨⟨⟨⟨⟨hWidth, hHeight⟩, hx⟩, hy⟩, hRight⟩, hBottom⟩ := h
  have hNat : ∀ v : Int32, 0 ≤ v → 0 ≤ v.toInt ∧ v.toInt = v.toUInt32.toNat := by
    intro v hv
    have hSigned : 0 ≤ v.toInt := by rwa [Int32.le_iff_toInt_le, Int32.toInt_zero] at hv
    refine ⟨hSigned, ?_⟩
    rw [Int32.toNat_toUInt32_of_le hv, ← Int32.toNat_toInt, Int.toNat_of_nonneg hSigned]
  have hPos : ∀ v : UInt32, ¬v = 0 → 0 < v.toNat := by
    intro v hv
    refine Nat.pos_of_ne_zero fun hZero => hv ?_
    exact UInt32.toNat_inj.mp hZero
  obtain ⟨hx0, hxNat⟩ := hNat r.x hx
  obtain ⟨hy0, hyNat⟩ := hNat r.y hy
  refine ⟨hx0, hy0, hPos _ hWidth, hPos _ hHeight, ?_, ?_⟩
  · rw [hxNat]
    exact_mod_cast hRight
  · rw [hyNat]
    exact_mod_cast hBottom

theorem makeDisplayObjectValue_eq (hGen : validDisplayGeneration generation = true)
    (hSerial : serial ≠ 0) :
    makeDisplayObjectValue generation serial = (generation <<< 32) ||| serial.toUInt64 := by
  rw [makeDisplayObjectValue, hGen]
  simp [hSerial]

/-- The serial is the low half of the value. -/
theorem toNat_makeDisplayObjectValue (hGen : validDisplayGeneration generation = true)
    (hSerial : serial ≠ 0) :
    (makeDisplayObjectValue generation serial).toNat =
      2 ^ 32 * generation.toNat + serial.toNat := by
  have hBound : generation.toNat < 2 ^ 32 := by
    rw [validDisplayGeneration, Bool.and_eq_true, decide_eq_true_eq] at hGen
    have hLe : generation ≤ maxDisplayObjectGeneration := hGen.2
    exact Nat.lt_succ_of_le (UInt64.le_iff_toNat_le.mp hLe)
  have hShift : (generation <<< 32).toNat = generation.toNat <<< 32 := by
    show generation.toNat <<< 32 % 2 ^ 64 = generation.toNat <<< 32
    omega
  rw [makeDisplayObjectValue_eq hGen hSerial, UInt64.toNat_or, hShift,
    UInt32.toNat_toUInt64, ← Nat.shiftLeft_add_eq_or_of_lt serial.toNat_lt, Nat.shiftLeft_eq]
  omega

/-- Objects of one generation differ in their serials. -/
theorem makeDisplayObjectValue_inj {a b : UInt32}
    (hGen : validDisplayGeneration generation = true) (ha : a ≠ 0) (hb : b ≠ 0)
    (h : makeDisplayObjectValue generation a = makeDisplayObjectValue generation b) : a = b := by
  have hNat := congrArg UInt64.toNat h
  rw [toNat_makeDisplayObjectValue hGen ha, toNat_makeDisplayObjectValue hGen hb]
    at hNat
  exact UInt32.toNat_inj.mp (Nat.add_left_cancel hNat)

namespace Compositor

variable {c c' : Compositor}
  {s : Slot} {owner : PeerIdentity} {surface : SurfaceId} {request : CreateSurfaceRequest}
  {op : CompositorOp} {f : Slot → Slot}

theorem isSome_key : s.key.isSome = s.occupied := by
  cases h : s.occupied <;> simp [key, h]

theorem mem_surfaces : s ∈ c.surfaces ↔ s ∈ c.slots ∧ s.occupied = true := by
  rw [surfaces, mem_entries, isSome_key]

theorem key_of_occupied (h : s.occupied = true) : s.key = some s.descriptor.id := by
  rw [key, if_pos h]

theorem keys_eq (c : Compositor) : keys key c.slots = c.surfaces.map fun s => s.descriptor.id := by
  rw [← keys_entries, surfaces, ← filterMap_eq_map]
  refine filterMap_congr fun s hs => ?_
  exact key_of_occupied (mem_surfaces.mp hs).2

theorem Coherent.distinct (h : c.Coherent) : (keys key c.slots).Nodup := by
  rw [keys_eq]
  exact h.ids

theorem countP_eq (c : Compositor) (p : Slot → Bool) :
    (c.slots.countP fun s => s.occupied && p s) = c.surfaces.countP p := by
  rw [surfaces, entries, countP_filter]
  refine countP_congr fun s _ => ?_
  rw [isSome_key, Bool.and_comm]

/-- The fields that no caller changes. -/
structure SameBase (c c' : Compositor) : Prop where
  configuration : c'.configuration = c.configuration
  trustedPrincipals : c'.trustedPrincipals = c.trustedPrincipals
  objectGeneration : c'.objectGeneration = c.objectGeneration
  valid : c'.valid = c.valid
  surfacesGiven : c.surfacesGiven ≤ c'.surfacesGiven
  stacksGiven : c.stacksGiven ≤ c'.stacksGiven

/-- Clearing surfaces keeps the invariant when no popup outlives the surface it
belongs to. -/
theorem Sound.filtered (h : c.Sound) {keep : Slot → Bool} (hBase : c.SameBase c')
    (hSurfaces : c'.surfaces = c.surfaces.filter keep)
    (hCnt : c'.surfaceCount.toNat = c'.surfaces.length) (hLen : c'.slots.length = maxSurfaces)
    (hPopups : ∀ s ∈ c.surfaces, keep s = true → s.descriptor.role = .popup →
      ∀ p ∈ c.surfaces, BelongsTo s p → keep p = true) : c'.Sound := by
  have hSub : c'.surfaces.Sublist c.surfaces := by
    rw [hSurfaces]
    exact filter_sublist
  refine ⟨⟨hCnt, ?_, ?_, ?_, ?_, ?_, ?_, ?_, ?_, ?_⟩, hLen, ?_, ?_, ?_, ?_, ?_⟩
  · exact hSub.length_le.trans h.limit
  · intro principal
    exact (hSub.countP_le).trans (h.quota principal)
  · exact (hSub.map _).nodup h.ids
  · intro s hs hRole
    rw [hSurfaces, mem_filter] at hs
    obtain ⟨p, hp, hBelongs⟩ := h.popups s hs.1 hRole
    refine ⟨p, ?_, hBelongs⟩
    rw [hSurfaces, mem_filter]
    exact ⟨hp, hPopups s hs.1 hs.2 hRole p hp hBelongs⟩
  · exact ((hSub.filter _).map _).nodup h.applications
  · exact ((hSub.filter _).map _).nodup h.stackSerials
  · intro s hs
    rw [hBase.trustedPrincipals]
    exact h.trusted s (hSub.subset hs)
  · intro s hs
    rw [hBase.configuration]
    exact h.inside s (hSub.subset hs)
  · intro s hs
    exact h.framed s (hSub.subset hs)
  · intro s hs
    obtain ⟨serial, hBelow, hIssued⟩ := h.issued s (hSub.subset hs)
    rw [hBase.objectGeneration]
    exact ⟨serial, hBelow.trans_le hBase.surfacesGiven, hIssued⟩
  · intro s hs hApp
    exact (h.stacked s (hSub.subset hs) hApp).trans_le hBase.stacksGiven
  · intro s hs
    exact h.roots s (hSub.subset hs)
  · intro s hs
    exact h.owners s (hSub.subset hs)
  · rw [hBase.valid, hBase.objectGeneration]
    exact h.generation

/-- The rewrite leaves a surface the one it was. -/
structure Keeps (f : Slot → Slot) : Prop where
  occupied : ∀ s, (f s).occupied = s.occupied
  id : ∀ s, (f s).descriptor.id = s.descriptor.id
  owner : ∀ s, (f s).descriptor.owner = s.descriptor.owner
  role : ∀ s, (f s).descriptor.role = s.descriptor.role
  parent : ∀ s, (f s).descriptor.parent = s.descriptor.parent

theorem keeps_raised {serial : UInt64} : Keeps fun s => { s with stackSerial := serial } := by
  constructor <;> exact fun _ => rfl

theorem keeps_unframed : Keeps fun s => { s with buffer := 0, hasFrame := false } := by
  constructor <;> exact fun _ => rfl

theorem Keeps.key (h : Keeps f) (s : Slot) : (f s).key = s.key := by
  rw [Slot.key, Slot.key, h.occupied, h.id]

theorem Keeps.isApplication (h : Keeps f) (s : Slot) : isApplication (f s) = isApplication s := by
  rw [Compositor.isApplication, h.role]
  rfl

/-- A rewrite on a condition. -/
theorem Keeps.ite (h : Keeps f) (p : Slot → Prop) [DecidablePred p] :
    Keeps fun s => if p s then f s else s := by
  constructor
  · intro s
    split_ifs
    · exact h.occupied s
    · rfl
  · intro s
    split_ifs
    · exact h.id s
    · rfl
  · intro s
    split_ifs
    · exact h.owner s
    · rfl
  · intro s
    split_ifs
    · exact h.role s
    · rfl
  intro s
  split_ifs
  · exact h.parent s
  · rfl

theorem filter_map_applications (h : Keeps f) (l : List Slot) :
    (l.map f).filter isApplication = (l.filter isApplication).map f := by
  rw [filter_map]
  refine congrArg (map f) (filter_congr fun s _ => ?_)
  exact h.isApplication s

/-- Rewriting the fields of surfaces keeps the invariant when bounds stay inside,
frames stay bound, and popups keep the serial of their application surface. -/
theorem Sound.mapped (h : c.Sound) (hf : Keeps f) (hBase : c.SameBase c')
    (hSlots : c'.slots = c.slots.map f) (hCnt : c'.surfaceCount = c.surfaceCount)
    (hInside : ∀ s ∈ c.surfaces, (f s).descriptor.bounds.Inside c.configuration.size)
    (hFramed : ∀ s ∈ c.surfaces, ((f s).hasFrame = true ↔ (f s).buffer ≠ 0))
    (hBelow : ∀ s ∈ c.surfaces, isApplication s = true → (f s).stackSerial.toNat < c'.stacksGiven)
    (hSerials : ((c.surfaces.filter isApplication).map fun s => (f s).stackSerial).Nodup)
    (hStack : ∀ s ∈ c.surfaces, ∀ p ∈ c.surfaces, s.descriptor.role = .popup → BelongsTo s p →
      (f p).stackSerial = (f s).stackSerial) : c'.Sound := by
  have hSurfaces : c'.surfaces = c.surfaces.map f := by
    rw [surfaces, hSlots, entries_map hf.key]
    rfl
  have hMem : ∀ s, s ∈ c'.surfaces → ∃ t ∈ c.surfaces, s = f t := by
    intro s hs
    rw [hSurfaces, mem_map] at hs
    obtain ⟨t, ht, rfl⟩ := hs
    exact ⟨t, ht, rfl⟩
  refine ⟨⟨?_, ?_, ?_, ?_, ?_, ?_, ?_, ?_, ?_, ?_⟩, ?_, ?_, ?_, ?_, ?_, ?_⟩
  · rw [hCnt, hSurfaces, length_map]
    exact h.count
  · rw [hSurfaces, length_map]
    exact h.limit
  · intro principal
    rw [hSurfaces, countP_map]
    refine le_of_eq_of_le (countP_congr fun s _ => ?_) (h.quota principal)
    rw [Function.comp_apply, hf.owner]
  · rw [hSurfaces, map_map]
    refine (map_congr_left fun s _ => ?_) ▸ h.ids
    exact (hf.id s).symm
  · intro s hs hRole
    obtain ⟨t, ht, rfl⟩ := hMem s hs
    rw [hf.role] at hRole
    obtain ⟨p, hp, hBelongs⟩ := h.popups t ht hRole
    refine ⟨f p, hSurfaces ▸ mem_map_of_mem hp, ?_, ?_, ?_, hStack t ht p hp hRole hBelongs⟩
    · rw [hf.id, hf.parent]
      exact hBelongs.id
    · rw [hf.role]
      exact hBelongs.role
    · rw [hf.owner, hf.owner]
      exact hBelongs.owner
  · rw [hSurfaces, filter_map_applications hf, map_map]
    refine (map_congr_left fun s _ => ?_) ▸ h.applications
    rw [Function.comp_apply, hf.owner]
  · rw [hSurfaces, filter_map_applications hf, map_map]
    exact hSerials
  · intro s hs
    obtain ⟨t, ht, rfl⟩ := hMem s hs
    rw [hBase.trustedPrincipals, hf.role, hf.owner]
    exact h.trusted t ht
  · intro s hs
    obtain ⟨t, ht, rfl⟩ := hMem s hs
    rw [hBase.configuration]
    exact hInside t ht
  · intro s hs
    obtain ⟨t, ht, rfl⟩ := hMem s hs
    exact hFramed t ht
  · rw [hSlots, length_map]
    exact h.length
  · intro s hs
    obtain ⟨t, ht, rfl⟩ := hMem s hs
    obtain ⟨serial, hSerial, hIssued⟩ := h.issued t ht
    rw [hBase.objectGeneration, hf.id]
    exact ⟨serial, hSerial.trans_le hBase.surfacesGiven, hIssued⟩
  · intro s hs hApp
    obtain ⟨t, ht, rfl⟩ := hMem s hs
    rw [hf.isApplication] at hApp
    exact hBelow t ht hApp
  · intro s hs hRole
    obtain ⟨t, ht, rfl⟩ := hMem s hs
    rw [hf.role] at hRole
    rw [hf.parent]
    exact h.roots t ht hRole
  · intro s hs
    obtain ⟨t, ht, rfl⟩ := hMem s hs
    rw [hf.owner]
    exact h.owners t ht
  · rw [hBase.valid, hBase.objectGeneration]
    exact h.generation

/-- A surface was added: it got the next serial, and meets everything that is asked
of a surface. -/
structure Added (c c' : Compositor) (v : Slot) : Prop where
  base : c.SameBase c'
  perm : c'.surfaces.Perm (v :: c.surfaces)
  count : c'.surfaceCount = c.surfaceCount + 1
  length : c'.slots.length = c.slots.length
  room : c.surfaceCount.toNat < maxSurfaces
  quota : c.surfaceCountFor v.descriptor.owner.principal < maxSurfacesPerPrincipal
  valid : c.valid = true
  serial : c.nextSurfaceSerial ≠ 0
  id : v.descriptor.id = makeDisplayObjectValue c.objectGeneration.toUInt64 c.nextSurfaceSerial
  given : c.surfacesGiven < c'.surfacesGiven
  popup : v.descriptor.role = .popup → ∃ p ∈ c.surfaces, BelongsTo v p
  root : v.descriptor.role ≠ .popup → v.descriptor.parent = 0
  application : isApplication v = true →
    c.processHasApplicationSurface v.descriptor.owner.process = false ∧
      v.stackSerial.toNat = c.stacksGiven ∧ c.stacksGiven < c'.stacksGiven
  trusted : c.roleAllowed v.descriptor.owner v.descriptor.role = true
  bounds : c.boundsValid v.descriptor.bounds = true
  owner : validPeerIdentity v.descriptor.owner = true
  blank : v.hasFrame = false ∧ v.buffer = 0

theorem surfaceCountFor_eq {principal : PrincipalId} (h : validPrincipal principal = true) :
    c.surfaceCountFor principal =
      c.surfaces.countP fun s => s.descriptor.owner.principal == principal := by
  rw [surfaceCountFor, h]
  exact countP_eq c _

/-- The serial handed out next has not been handed out. -/
theorem toNat_nextSurfaceSerial (h : c.nextSurfaceSerial ≠ 0) :
    c.nextSurfaceSerial.toNat = c.surfacesGiven := by
  have hNat : c.nextSurfaceSerial.toNat ≠ 0 := fun hZero => h (UInt32.toNat_inj.mp hZero)
  rw [surfacesGiven, given, if_neg hNat]

theorem toNat_nextStackSerial (h : c.nextStackSerial ≠ 0) :
    c.nextStackSerial.toNat = c.stacksGiven := by
  have hNat : c.nextStackSerial.toNat ≠ 0 := fun hZero => h (UInt64.toNat_inj.mp hZero)
  rw [stacksGiven, given, if_neg hNat]

theorem Added.id_notMem {v : Slot} (h : c.Sound) (hAdded : Added c c' v) :
    v.descriptor.id ∉ c.surfaces.map fun s => s.descriptor.id := by
  intro hMem
  obtain ⟨s, hs, hSame⟩ := mem_map.mp hMem
  obtain ⟨serial, hBelow, hNonzero, hId⟩ := h.issued s hs
  have hEq : serial = c.nextSurfaceSerial := by
    refine makeDisplayObjectValue_inj (h.generation hAdded.valid) hNonzero hAdded.serial ?_
    rw [← hId, ← hAdded.id, hSame]
  rw [hEq, toNat_nextSurfaceSerial hAdded.serial] at hBelow
  omega

theorem processHasApplicationSurface_eq_false {process : ProcessId} (hProc : process ≠ 0)
    (h : c.processHasApplicationSurface process = false) (hs : s ∈ c.surfaces)
    (hApp : isApplication s = true) : s.descriptor.owner.process ≠ process := by
  intro hSame
  obtain ⟨hMem, hOcc⟩ := mem_surfaces.mp hs
  rw [processHasApplicationSurface, Bool.and_eq_false_iff] at h
  rcases h with h | h
  · simp [hProc] at h
  · have hNone := any_eq_false.mp h s hMem
    rw [isApplication] at hApp
    simp [hOcc, hSame, hApp] at hNone

theorem process_ne_zero (h : validPeerIdentity owner = true) :
    validPrincipal owner.principal = true ∧ owner.process ≠ 0 := by
  simpa [validPeerIdentity] using h

theorem Sound.added (h : c.Sound) {v : Slot} (hAdded : Added c c' v) : c'.Sound := by
  obtain ⟨hPrinc, hProc⟩ := process_ne_zero hAdded.owner
  have hPerm := hAdded.perm
  have hBase := hAdded.base
  have hLen : c'.surfaces.length = c.surfaces.length + 1 := hPerm.length_eq
  have hMem : ∀ s, s ∈ c'.surfaces ↔ s = v ∨ s ∈ c.surfaces := by
    intro s
    rw [hPerm.mem_iff, mem_cons]
  have hEach : ∀ {P : Slot → Prop}, P v → (∀ s ∈ c.surfaces, P s) → ∀ s ∈ c'.surfaces, P s := by
    intro P hNew hOld s hs
    rcases (hMem s).mp hs with rfl | hs
    · exact hNew
    · exact hOld s hs
  have hRoom := hAdded.room
  have hCnt : c'.surfaceCount.toNat = c'.surfaces.length := by
    rw [hAdded.count, UInt64.toNat_add, hLen, ← h.count]
    refine Nat.mod_eq_of_lt ?_
    show c.surfaceCount.toNat + 1 < 2 ^ 64
    have hSmall : maxSurfaces < 2 ^ 64 - 1 := by decide
    omega
  have hApplications : (c'.surfaces.filter isApplication).Perm
      ((v :: c.surfaces).filter isApplication) := hPerm.filter _
  refine ⟨⟨hCnt, ?_, ?_, ?_, ?_, ?_, ?_, ?_, ?_, ?_⟩, ?_, ?_, ?_, ?_, ?_, ?_⟩
  · rw [hLen, ← h.count]
    exact hRoom
  · intro principal
    rw [hPerm.countP_eq, countP_cons]
    split_ifs with hSame
    · obtain rfl : v.descriptor.owner.principal = principal := beq_iff_eq.mp hSame
      have hQuota := hAdded.quota
      rw [surfaceCountFor_eq hPrinc] at hQuota
      exact hQuota
    · exact h.quota principal
  · rw [(hPerm.map _).nodup_iff, map_cons, nodup_cons]
    exact ⟨hAdded.id_notMem h, h.ids⟩
  · intro s hs hRole
    rcases (hMem s).mp hs with rfl | hs
    · obtain ⟨p, hp, hBelongs⟩ := hAdded.popup hRole
      exact ⟨p, (hMem p).mpr (.inr hp), hBelongs⟩
    · obtain ⟨p, hp, hBelongs⟩ := h.popups s hs hRole
      exact ⟨p, (hMem p).mpr (.inr hp), hBelongs⟩
  · rw [(hApplications.map _).nodup_iff, filter_cons]
    split_ifs with hApp
    · refine nodup_map_of_perm (List.Perm.refl _) h.applications fun s hs hSame => ?_
      obtain ⟨hSurface, hRole⟩ := mem_filter.mp hs
      exact processHasApplicationSurface_eq_false hProc (hAdded.application hApp).1
        hSurface hRole hSame
    · exact h.applications
  · rw [(hApplications.map _).nodup_iff, filter_cons]
    split_ifs with hApp
    · refine nodup_map_of_perm (List.Perm.refl _) h.stackSerials fun s hs hSame => ?_
      obtain ⟨hSurface, hRole⟩ := mem_filter.mp hs
      have hBelow := h.stacked s hSurface hRole
      rw [hSame, (hAdded.application hApp).2.1] at hBelow
      omega
    · exact h.stackSerials
  · rw [hBase.trustedPrincipals]
    refine hEach ?_ h.trusted
    have hAllowed := hAdded.trusted
    constructor
    all_goals
      intro hRole
      rw [hRole] at hAllowed
      exact beq_iff_eq.mp hAllowed
  · rw [hBase.configuration]
    refine hEach ?_ h.inside
    have hBounds := hAdded.bounds
    rw [boundsValid, Bool.and_eq_true] at hBounds
    exact Rect.inside_of_fits hBounds.2
  · exact hEach (by simp [hAdded.blank]) h.framed
  · rw [hAdded.length]
    exact h.length
  · rw [hBase.objectGeneration]
    refine hEach ⟨c.nextSurfaceSerial, ?_, hAdded.serial, hAdded.id⟩ fun s hs => ?_
    · rw [toNat_nextSurfaceSerial hAdded.serial]
      exact hAdded.given
    · obtain ⟨serial, hBelow, hIssued⟩ := h.issued s hs
      exact ⟨serial, hBelow.trans hAdded.given, hIssued⟩
  · refine hEach (fun hApp => ?_) fun s hs hApp => (h.stacked s hs hApp).trans_le hBase.stacksGiven
    obtain ⟨-, hSerial, hGiven⟩ := hAdded.application hApp
    rw [hSerial]
    exact hGiven
  · exact hEach hAdded.root h.roots
  · exact hEach hAdded.owner h.owners
  · rw [hBase.valid, hBase.objectGeneration]
    exact h.generation

theorem surfacesGiven_bump (h : c.nextSurfaceSerial ≠ 0) :
    given (2 ^ 32) (if c.nextSurfaceSerial = 0xFFFFFFFF then (0 : UInt32)
      else c.nextSurfaceSerial + 1).toNat = c.surfacesGiven + 1 := by
  rw [← toNat_nextSurfaceSerial h]
  split_ifs with hLast
  · rw [hLast]
    rfl
  have hNat : c.nextSurfaceSerial.toNat ≠ 2 ^ 32 - 1 :=
    fun hMax => hLast (UInt32.toNat_inj.mp hMax)
  have hLt := c.nextSurfaceSerial.toNat_lt
  have hNext : (c.nextSurfaceSerial + 1).toNat = c.nextSurfaceSerial.toNat + 1 := by
    exact Nat.mod_eq_of_lt (show c.nextSurfaceSerial.toNat + 1 < 2 ^ 32 by omega)
  rw [hNext, given, if_neg (Nat.succ_ne_zero _)]

theorem stacksGiven_bump (h : c.nextStackSerial ≠ 0) :
    given (2 ^ 64) (c.nextStackSerial + 1).toNat = c.stacksGiven + 1 := by
  rw [← toNat_nextStackSerial h]
  have hLt := c.nextStackSerial.toNat_lt
  have hNext : (c.nextStackSerial + 1).toNat = (c.nextStackSerial.toNat + 1) % 2 ^ 64 :=
    UInt64.toNat_add ..
  rw [hNext, given]
  split_ifs with hEnd
  · omega
  · exact Nat.mod_eq_of_lt (by omega)

/-- The checks that stand before a creation. -/
structure Admitted (c : Compositor) (owner : PeerIdentity) (request : CreateSurfaceRequest) :
    Prop where
  valid : c.valid = true
  identity : validPeerIdentity owner = true
  role : c.roleAllowed owner request.role = true
  bounds : c.boundsValid request.bounds = true
  parent : c.parentValid owner request = true
  application : request.role = .application → c.processHasApplicationSurface owner.process = false
  room : c.surfaceCount.toNat < maxSurfaces
  quota : c.surfaceCountFor owner.principal < maxSurfacesPerPrincipal
  serial : c.nextSurfaceSerial ≠ 0
  stackSerial : request.role = .application → c.nextStackSerial ≠ 0
  free : ∃ s ∈ c.slots, s.occupied = false

/-- A call that refuses under a condition refuses, or the condition fails and it goes on. -/
theorem refused_or {p goesOn : Prop} [Decidable p] {e : Error} {α : Type}
    {rest result : Compositor × Result α} (h : (if p then (c, .error e) else rest) = result)
    (hRest : ¬p → rest = result → (∃ e, result = (c, .error e)) ∨ goesOn) :
    (∃ e, result = (c, .error e)) ∨ goesOn := by
  split_ifs at h with hp
  · exact .inl ⟨e, h.symm⟩
  · exact hRest hp h

theorem createSurface_checks (c : Compositor) (owner : PeerIdentity)
    (request : CreateSurfaceRequest) :
    (∃ e, c.createSurface owner request = (c, .error e)) ∨
      (Admitted c owner request ∧ c.createSurface owner request = c.numbered owner request
          (makeDisplayObjectValue c.objectGeneration.toUInt64 c.nextSurfaceSerial)) := by
  generalize hRes : c.createSurface owner request = result
  unfold createSurface at hRes
  refine refused_or hRes fun hValid hRes => ?_
  refine refused_or hRes fun hOwner hRes => ?_
  refine refused_or hRes fun hRole hRes => ?_
  refine refused_or hRes fun hBounds hRes => ?_
  refine refused_or hRes fun hPar hRes => ?_
  refine refused_or hRes fun hApp hRes => ?_
  refine refused_or hRes fun hRoom hRes => ?_
  refine refused_or hRes fun hQuota hRes => ?_
  refine refused_or hRes fun hSerial hRes => ?_
  refine refused_or hRes fun hFull hRes => ?_
  dsimp only at hRes
  split_ifs at hRes
  · exact .inl ⟨_, hRes.symm⟩
  rw [not_or, not_or] at hSerial
  refine .inr ⟨⟨by simpa using hValid, by simpa using hOwner, by simpa using hRole,
    by simpa using hBounds, by simpa using hPar, ?_, Nat.lt_of_not_le hRoom,
    Nat.lt_of_not_le hQuota, hSerial.1, ?_, by simpa using hFull⟩, hRes.symm⟩
  · intro hApplies
    exact Bool.eq_false_iff.mpr fun hHas => hApp ⟨hApplies, hHas⟩
  · intro hApplies hZero
    exact hSerial.2.2 ⟨hApplies, hZero⟩

theorem mem_of_findSlot (h : c.findSlot surface = some s) :
    surface ≠ 0 ∧ s ∈ c.surfaces ∧ s.descriptor.id = surface := by
  unfold findSlot at h
  split_ifs at h with hZero
  obtain ⟨hMem, hKey⟩ := mem_of_lookup h
  have hOcc : s.occupied = true := by
    rw [← isSome_key, hKey]
    rfl
  rw [key_of_occupied hOcc] at hKey
  exact ⟨hZero, mem_surfaces.mpr ⟨hMem, hOcc⟩, Option.some.inj hKey⟩

/-- The parent that a popup was accepted with. -/
theorem findSlot_of_parentValid (h : c.parentValid owner request = true)
    (hRole : request.role = .popup) :
    ∃ p, c.findSlot request.parent = some p ∧ p.descriptor.owner = owner ∧
      p.descriptor.role = .application := by
  unfold parentValid at h
  rw [if_neg (not_not.mpr hRole)] at h
  cases hFind : c.findSlot request.parent with
  | none =>
    rw [hFind] at h
    cases h
  | some p =>
    rw [hFind] at h
    rw [Bool.and_eq_true, beq_iff_eq, beq_iff_eq] at h
    exact ⟨p, rfl, h⟩

theorem parent_of_parentValid (h : c.parentValid owner request = true)
    (hRole : request.role ≠ .popup) : request.parent = 0 := by
  unfold parentValid at h
  rw [if_pos hRole] at h
  exact beq_iff_eq.mp h

/-- A surface that has passed the checks is stored, in the compositor `c₁` that has
taken its serials. -/
theorem added_store {c₁ : Compositor} {creationSerial stackSerial : UInt64}
    (h : Admitted c owner request) (hBase : c.SameBase c₁)
    (hSlots : c₁.slots = c.slots) (hCnt : c₁.surfaceCount = c.surfaceCount)
    (hGiven : c.surfacesGiven < c₁.surfacesGiven)
    (hPopup : request.role = .popup → ∃ p, c.findSlot request.parent = some p ∧
      p.descriptor.owner = owner ∧ p.descriptor.role = .application ∧ p.stackSerial = stackSerial)
    (hStack : request.role = .application →
      stackSerial.toNat = c.stacksGiven ∧ c.stacksGiven < c₁.stacksGiven) :
    ∃ c' v, c₁.store owner request
        (makeDisplayObjectValue c.objectGeneration.toUInt64 c.nextSurfaceSerial) creationSerial
        stackSerial = (c', .ok v.descriptor) ∧ Added c c' v := by
  set id := makeDisplayObjectValue c.objectGeneration.toUInt64 c.nextSurfaceSerial with hId
  let v : Slot :=
    { occupied := true
      descriptor :=
        { id, owner, role := request.role, parent := request.parent, bounds := request.bounds
          visibility := .hidden, acceptsInput := request.acceptsInput }
      creationSerial, stackSerial }
  obtain ⟨slots, hIns⟩ : ∃ slots, insert key v c.slots = some slots := by
    rw [← Option.isSome_iff_exists, Option.isSome_iff_ne_none, ne_eq, insert_eq_none_iff]
    intro hFull
    obtain ⟨s, hs, hFree⟩ := h.free
    refine hFull s hs ?_
    rw [key, if_neg (by simp [hFree])]
  have hStore : c₁.store owner request id creationSerial stackSerial =
      ({ c₁ with slots, surfaceCount := c₁.surfaceCount + 1 }, .ok v.descriptor) := by
    unfold store
    rw [hSlots]
    dsimp only
    rw [hIns]
  refine ⟨_, v, hStore, ?_⟩
  constructor
  · exact ⟨hBase.configuration, hBase.trustedPrincipals, hBase.objectGeneration, hBase.valid,
      hBase.surfacesGiven, hBase.stacksGiven⟩
  · exact entries_insert rfl hIns
  · rw [hCnt]
  · exact length_insert hIns
  · exact h.room
  · exact h.quota
  · exact h.valid
  · exact h.serial
  · exact hId
  · exact hGiven
  · intro hRole
    obtain ⟨p, hFind, hOwner, hApp, hSerial⟩ := hPopup hRole
    obtain ⟨-, hp, hPar⟩ := mem_of_findSlot hFind
    exact ⟨p, hp, hPar, hApp, hOwner, hSerial⟩
  · exact parent_of_parentValid h.parent
  · intro hApp
    have hRole : request.role = .application := beq_iff_eq.mp hApp
    exact ⟨h.application hRole, hStack hRole⟩
  · exact h.role
  · exact h.bounds
  · exact h.identity
  · exact ⟨rfl, rfl⟩

/-- A creation is refused and changes nothing, or adds one surface. -/
theorem createSurface_cases (c : Compositor) (owner : PeerIdentity)
    (request : CreateSurfaceRequest) :
    (∃ e, c.createSurface owner request = (c, .error e)) ∨
      ∃ c' v, c.createSurface owner request = (c', .ok v.descriptor) ∧ Added c c' v := by
  rcases createSurface_checks c owner request with hErr | ⟨h, hNumbered⟩
  · exact .inl hErr
  refine .inr ?_
  have hMore : c.surfacesGiven < given (2 ^ 32) (if c.nextSurfaceSerial = 0xFFFFFFFF
      then (0 : UInt32) else c.nextSurfaceSerial + 1).toNat := by
    rw [surfacesGiven_bump h.serial]
    omega
  rw [hNumbered]
  unfold numbered
  cases hRole : request.role with
  | application =>
    have hSerial := h.stackSerial hRole
    have hStacks : c.stacksGiven < given (2 ^ 64) (c.nextStackSerial + 1).toNat := by
      rw [stacksGiven_bump hSerial]
      omega
    refine added_store h ⟨rfl, rfl, rfl, rfl, hMore.le, hStacks.le⟩ rfl rfl hMore ?_ ?_
    · intro hPopup
      rw [hRole] at hPopup
      cases hPopup
    · intro _
      exact ⟨toNat_nextStackSerial hSerial, hStacks⟩
  | popup =>
    obtain ⟨p, hFind, hOwner, hApp⟩ := findSlot_of_parentValid h.parent hRole
    dsimp only
    have hSame : findSlot { c with
        nextSurfaceSerial := if c.nextSurfaceSerial = 0xFFFFFFFF then 0
          else c.nextSurfaceSerial + 1
        nextCreationSerial := c.nextCreationSerial + 1 } request.parent = some p := hFind
    rw [hSame]
    refine added_store h ⟨rfl, rfl, rfl, rfl, hMore.le, le_refl _⟩ rfl rfl hMore ?_ ?_
    · intro _
      exact ⟨p, hFind, hOwner, hApp, rfl⟩
    · intro hApplies
      rw [hRole] at hApplies
      cases hApplies
  | systemChrome | secureSystem =>
    refine added_store h ⟨rfl, rfl, rfl, rfl, hMore.le, le_refl _⟩ rfl rfl hMore ?_ ?_
    · intro hPopup
      rw [hRole] at hPopup
      cases hPopup
    · intro hApplies
      rw [hRole] at hApplies
      cases hApplies

theorem findOwnedSlot_eq_ok {caller : PeerIdentity} (h : c.findOwnedSlot caller surface = .ok s) :
    c.findSlot surface = some s ∧ s.descriptor.owner = caller := by
  unfold findOwnedSlot at h
  split_ifs at h
  split at h
  · cases h
  · split_ifs at h with hOwner
    cases h
    exact ⟨‹_›, not_not.mp hOwner⟩

/-- A surface is looked up by its identifier. -/
theorem Coherent.eq_of_id (h : c.Coherent) {t : Slot} (hs : s ∈ c.surfaces) (ht : t ∈ c.surfaces)
    (hSame : s.descriptor.id = t.descriptor.id) : s = t :=
  inj_on_of_nodup_map h.ids hs ht hSame

theorem surfaces_clearSlots (c : Compositor) (doomed : Slot → Bool) :
    (c.clearSlots doomed).surfaces = c.surfaces.filter fun s => !doomed s := by
  rw [surfaces, clearSlots, entries_map_free rfl]
  refine filter_congr fun s hs => ?_
  rw [(mem_surfaces.mp hs).2, Bool.true_and]

theorem count_clearSlots (h : c.surfaceCount.toNat = c.surfaces.length) (doomed : Slot → Bool) :
    (c.clearSlots doomed).surfaceCount.toNat = (c.clearSlots doomed).surfaces.length := by
  have hSplit : c.surfaces.length =
      c.surfaces.countP doomed + c.surfaces.countP fun s => !doomed s := by
    rw [length_eq_countP_add_countP doomed]
    refine congrArg (_ + ·) (countP_congr fun s _ => ?_)
    simp
  have hFew : c.surfaces.countP doomed < 2 ^ 64 := by
    have hLt := c.surfaceCount.toNat_lt
    omega
  have hNat : (UInt64.ofNat (c.surfaces.countP doomed)).toNat = c.surfaces.countP doomed :=
    Nat.mod_eq_of_lt hFew
  have hLe : UInt64.ofNat (c.surfaces.countP doomed) ≤ c.surfaceCount := by
    rw [UInt64.le_iff_toNat_le, hNat]
    omega
  rw [surfaces_clearSlots, clearSlots, countP_eq, ← countP_eq_length_filter]
  rw [UInt64.toNat_sub_of_le _ _ hLe, hNat]
  omega

theorem sameBase_clearSlots (c : Compositor) (doomed : Slot → Bool) :
    c.SameBase (c.clearSlots doomed) :=
  ⟨rfl, rfl, rfl, rfl, le_refl _, le_refl _⟩

theorem Sound.clearSlots (h : c.Sound) {doomed : Slot → Bool}
    (hPopups : ∀ s ∈ c.surfaces, doomed s = false → s.descriptor.role = .popup →
      ∀ p ∈ c.surfaces, BelongsTo s p → doomed p = false) : (c.clearSlots doomed).Sound := by
  refine h.filtered (sameBase_clearSlots c doomed) (surfaces_clearSlots c doomed)
    (count_clearSlots h.count doomed) ?_ ?_
  · rw [Compositor.clearSlots, length_map]
    exact h.length
  · intro s hs hKept hRole p hp hBelongs
    rw [Bool.not_eq_true'] at hKept ⊢
    exact hPopups s hs hKept hRole p hp hBelongs

theorem Sound.revokeProcess (h : c.Sound) (process : ProcessId) :
    (c.revokeProcess process).Sound := by
  unfold Compositor.revokeProcess
  split_ifs
  · exact h
  refine h.clearSlots ?_
  intro s _ hKept _ p _ hBelongs
  rw [hBelongs.owner]
  exact hKept

/-- A surface does not belong to itself. -/
theorem Sound.parent_ne_id (h : c.Sound) (hs : s ∈ c.surfaces)
    (hId : s.descriptor.id ≠ 0) : s.descriptor.parent ≠ s.descriptor.id := by
  intro hSelf
  by_cases hRole : s.descriptor.role = .popup
  · obtain ⟨p, hp, hBelongs⟩ := h.popups s hs hRole
    have hSame : p = s := h.eq_of_id hp hs (by rw [hBelongs.id, hSelf])
    have hApp := hBelongs.role
    rw [hSame, hRole] at hApp
    cases hApp
  · exact hId (hSelf.symm.trans (h.roots s hs hRole))

theorem slots_destroySurface (h : c.Coherent) {caller : PeerIdentity}
    (hOwned : c.findOwnedSlot caller surface = .ok s) :
    (c.destroySurface caller surface).1.slots = c.slots.map fun t =>
      if decide (t.key = some surface) || (t.occupied && t.descriptor.parent == surface) then {}
      else t := by
  have hPlaced : (c.destroySurface caller surface).1.slots =
      (c.slots.map fun t => if t.occupied && t.descriptor.parent == surface then {} else t).set
        (c.slots.findIdx fun t => decide (t.key = some surface)) {} := by
    unfold destroySurface
    rw [hOwned]
    rfl
  rw [hPlaced, set_findIdx_map h.distinct]
  refine map_congr_left fun t _ => ?_
  by_cases hKey : t.key = some surface
  all_goals simp [hKey]

/-- The surface goes, and with it what belongs to it. -/
theorem surfaces_destroySurface (h : c.Coherent) {caller : PeerIdentity}
    (hOwned : c.findOwnedSlot caller surface = .ok s) :
    (c.destroySurface caller surface).1.surfaces = c.surfaces.filter
      fun t => t.descriptor.id != surface && t.descriptor.parent != surface := by
  rw [surfaces, slots_destroySurface h hOwned, entries_map_free rfl]
  refine filter_congr fun t ht => ?_
  have hOcc := (mem_surfaces.mp ht).2
  rw [key_of_occupied hOcc, hOcc, Bool.true_and, Bool.not_or, Bool.eq_iff_iff]
  simp

/-- The popups are counted off one by one, the surface itself after them. -/
theorem count_destroySurface (h : c.Sound) {caller : PeerIdentity}
    (hOwned : c.findOwnedSlot caller surface = .ok s) :
    (c.destroySurface caller surface).1.surfaceCount.toNat =
      (c.destroySurface caller surface).1.surfaces.length := by
  obtain ⟨hFind, -⟩ := findOwnedSlot_eq_ok hOwned
  obtain ⟨hSurface, hs, hId⟩ := mem_of_findSlot hFind
  set cleared := c.clearSlots fun t => t.descriptor.parent == surface with hCleared
  have hRest : (c.destroySurface caller surface).1.surfaces =
      cleared.surfaces.filter fun t => t.descriptor.id != surface := by
    rw [surfaces_destroySurface h.toCoherent hOwned, hCleared, surfaces_clearSlots, filter_filter]
    rfl
  have hStays : s ∈ cleared.surfaces := by
    rw [hCleared, surfaces_clearSlots, mem_filter]
    refine ⟨hs, ?_⟩
    have hNot := h.parent_ne_id hs (hId ▸ hSurface)
    rw [hId] at hNot
    simp [hNot]
  have hIds : (cleared.surfaces.map fun t => t.descriptor.id).Nodup := by
    rw [hCleared, surfaces_clearSlots]
    exact (filter_sublist.map _).nodup h.ids
  have hOne : (cleared.surfaces.countP fun t => t.descriptor.id == surface) = 1 := by
    have hCnt := count_eq_one_of_mem hIds (mem_map_of_mem hStays)
    rw [hId, count, countP_map] at hCnt
    exact hCnt
  have hSplit := length_eq_countP_add_countP (l := cleared.surfaces)
    fun t => t.descriptor.id == surface
  have hFiltered : (cleared.surfaces.filter fun t => t.descriptor.id != surface).length =
      cleared.surfaces.length - 1 := by
    rw [← countP_eq_length_filter]
    have hSame : (cleared.surfaces.countP fun t => decide ¬(t.descriptor.id == surface) = true) =
        cleared.surfaces.countP fun t => t.descriptor.id != surface :=
      countP_congr fun t _ => by simp
    omega
  have hCnt := count_clearSlots h.count fun t => t.descriptor.parent == surface
  have hPos : 0 < cleared.surfaces.length := length_pos_of_mem hStays
  have hLast : (c.destroySurface caller surface).1.surfaceCount = cleared.surfaceCount - 1 := by
    unfold destroySurface
    rw [hOwned]
  have hOneLe : (1 : UInt64) ≤ cleared.surfaceCount := by
    rw [UInt64.le_iff_toNat_le, hCnt]
    exact hPos
  rw [hRest, hFiltered, hLast, UInt64.toNat_sub_of_le _ _ hOneLe, hCnt]
  rfl

theorem Sound.destroySurface (h : c.Sound) {caller : PeerIdentity}
    (hOwned : c.findOwnedSlot caller surface = .ok s) :
    (c.destroySurface caller surface).1.Sound := by
  have hBase : c.SameBase (c.destroySurface caller surface).1 := by
    unfold Compositor.destroySurface
    rw [hOwned]
    exact ⟨rfl, rfl, rfl, rfl, le_refl _, le_refl _⟩
  obtain ⟨hFind, -⟩ := findOwnedSlot_eq_ok hOwned
  refine h.filtered hBase (surfaces_destroySurface h.toCoherent hOwned)
    (count_destroySurface h hOwned) ?_ ?_
  · rw [slots_destroySurface h.toCoherent hOwned, length_map]
    exact h.length
  intro t _ hKept _ p hp hBelongs
  rw [Bool.and_eq_true, bne_iff_ne, bne_iff_ne] at hKept ⊢
  refine ⟨?_, ?_⟩
  · rw [hBelongs.id]
    exact hKept.2
  · rw [h.roots p hp (by rw [hBelongs.role]; exact SurfaceRole.noConfusion)]
    exact (mem_of_findSlot hFind).1.symm

theorem modifySlot_slots (h : c.Coherent) (surface : SurfaceId) (f : Slot → Slot) :
    (c.modifySlot surface f).slots = c.slots.map fun s => if s.key = some surface then f s else s :=
  modify_eq_map h.distinct

/-- Rewriting one surface, its serial apart. -/
theorem Sound.modifySlot (h : c.Sound) (hf : Keeps f)
    (hStack : ∀ s, (f s).stackSerial = s.stackSerial)
    (hInside : ∀ s ∈ c.surfaces, s.descriptor.id = surface →
      (f s).descriptor.bounds.Inside c.configuration.size)
    (hFramed : ∀ s ∈ c.surfaces, s.descriptor.id = surface →
      ((f s).hasFrame = true ↔ (f s).buffer ≠ 0)) :
    (c.modifySlot surface f).Sound := by
  have hSerial : ∀ s, (if s.key = some surface then f s else s).stackSerial = s.stackSerial := by
    intro s
    split_ifs
    · exact hStack s
    · rfl
  have hId : ∀ s ∈ c.surfaces, s.key = some surface → s.descriptor.id = surface := by
    intro s hs hKey
    rw [key_of_occupied (mem_surfaces.mp hs).2] at hKey
    exact Option.some.inj hKey
  refine h.mapped (hf.ite fun s => s.key = some surface)
    ⟨rfl, rfl, rfl, rfl, le_refl _, le_refl _⟩ (modifySlot_slots h.toCoherent surface f) rfl
    ?_ ?_ ?_ ?_ ?_
  · intro s hs
    split_ifs with hKey
    · exact hInside s hs (hId s hs hKey)
    · exact h.inside s hs
  · intro s hs
    split_ifs with hKey
    · exact hFramed s hs (hId s hs hKey)
    · exact h.framed s hs
  · intro s hs hApp
    rw [hSerial]
    exact h.stacked s hs hApp
  · simp only [hSerial]
    exact h.stackSerials
  · intro s _ p _ _ hBelongs
    rw [hSerial, hSerial]
    exact hBelongs.stack

theorem slots_restack (h : c.Coherent) (surface : SurfaceId) :
    (c.restack surface).slots = c.slots.map fun s =>
      if s.occupied = true ∧ (s.descriptor.id = surface ∨ s.descriptor.parent = surface) then
        { s with stackSerial := c.nextStackSerial }
      else s := by
  show ((c.modifySlot surface fun s => { s with stackSerial := c.nextStackSerial }).slots.map
    _) = _
  rw [modifySlot_slots h, map_map]
  refine map_congr_left fun s _ => ?_
  rw [Function.comp_apply]
  by_cases hOcc : s.occupied = true
  · rw [key_of_occupied hOcc]
    by_cases hId : s.descriptor.id = surface <;>
      by_cases hPar : s.descriptor.parent = surface <;> simp [hOcc, hId, hPar]
  · simp [key, hOcc]

/-- The group that is raised is an application surface and all its popups, and the
serial it gets is a new one. -/
theorem Sound.restack (h : c.Sound) {root : Slot}
    (hFind : c.findSlot surface = some root) (hRole : root.descriptor.role = .application)
    (hSerial : c.nextStackSerial ≠ 0) : (c.restack surface).Sound := by
  obtain ⟨hSurface, hRoot, hId⟩ := mem_of_findSlot hFind
  set raised : Slot → Slot := fun s =>
    if s.occupied = true ∧ (s.descriptor.id = surface ∨ s.descriptor.parent = surface) then
      { s with stackSerial := c.nextStackSerial }
    else s with hRaised
  have hMore : (c.restack surface).stacksGiven = c.stacksGiven + 1 := stacksGiven_bump hSerial
  have hNoPar : ∀ s ∈ c.surfaces, isApplication s = true → s.descriptor.parent ≠ surface := by
    intro s hs hApp
    rw [h.roots s hs (by rw [beq_iff_eq.mp hApp]; exact SurfaceRole.noConfusion)]
    exact hSurface.symm
  have hAppSerial : ∀ s ∈ c.surfaces, isApplication s = true → (raised s).stackSerial =
        if s.descriptor.id = surface then c.nextStackSerial else s.stackSerial := by
    intro s hs hApp
    have hNot := hNoPar s hs hApp
    rw [hRaised]
    by_cases hSame : s.descriptor.id = surface <;>
      simp [(mem_surfaces.mp hs).2, hSame, hNot]
  refine h.mapped (keeps_raised.ite _) ⟨rfl, rfl, rfl, rfl, le_refl _, hMore ▸ Nat.le_succ _⟩
    (slots_restack h.toCoherent surface) rfl ?_ ?_ ?_ ?_ ?_
  · intro s hs
    split_ifs <;> exact h.inside s hs
  · intro s hs
    split_ifs <;> exact h.framed s hs
  · intro s hs hApp
    rw [hMore]
    rw [hAppSerial s hs hApp]
    split_ifs
    · rw [toNat_nextStackSerial hSerial]
      exact Nat.lt_succ_self _
    · exact Nat.lt_succ_of_lt (h.stacked s hs hApp)
  · have hNodup : (c.surfaces.filter isApplication).Nodup := h.stackSerials.of_map _
    refine List.Nodup.map_on ?_ hNodup
    intro s hs t ht hSame
    obtain ⟨hs, hsRole⟩ := mem_filter.mp hs
    obtain ⟨ht, htRole⟩ := mem_filter.mp ht
    have hsOld := h.stacked s hs hsRole
    have htOld := h.stacked t ht htRole
    have hNew := toNat_nextStackSerial hSerial
    rw [hAppSerial s hs hsRole, hAppSerial t ht htRole] at hSame
    split_ifs at hSame with hsId htId htId
    · exact h.eq_of_id hs ht (hsId.trans htId.symm)
    · rw [← hSame, hNew] at htOld
      omega
    · rw [hSame, hNew] at hsOld
      omega
    · exact inj_on_of_nodup_map h.stackSerials (mem_filter.mpr ⟨hs, hsRole⟩)
        (mem_filter.mpr ⟨ht, htRole⟩) hSame
  · intro s hs p hp hPopup hBelongs
    change (raised p).stackSerial = (raised s).stackSerial
    have hApp : isApplication p = true := beq_iff_eq.mpr hBelongs.role
    rw [hAppSerial p hp hApp, hBelongs.id, hRaised]
    have hNotRoot : s.descriptor.id ≠ surface := by
      intro hSame
      have hEq := h.eq_of_id hs hRoot (hSame.trans hId.symm)
      rw [hEq, hRole] at hPopup
      cases hPopup
    by_cases hPar : s.descriptor.parent = surface
    · simp [(mem_surfaces.mp hs).2, hPar]
    · simp [hNotRoot, hPar, hBelongs.stack]

theorem Sound.invalidateBuffer (h : c.Sound) (buffer : BufferId) :
    (c.invalidateBuffer buffer).Sound := by
  unfold Compositor.invalidateBuffer
  split_ifs
  · exact h
  have hSerial : ∀ s : Slot, (if s.occupied && s.buffer == buffer then
      { s with buffer := 0, hasFrame := false } else s).stackSerial = s.stackSerial := by
    intro s
    split_ifs <;> rfl
  refine h.mapped (keeps_unframed.ite fun s => (s.occupied && s.buffer == buffer) = true)
    ⟨rfl, rfl, rfl, rfl, le_refl _, le_refl _⟩ rfl rfl ?_ ?_ ?_ ?_ ?_
  · intro s hs
    split_ifs <;> exact h.inside s hs
  · intro s hs
    split_ifs
    · simp
    · exact h.framed s hs
  · intro s hs hApp
    rw [hSerial]
    exact h.stacked s hs hApp
  · simp only [hSerial]
    exact h.stackSerials
  · intro s _ p _ _ hBelongs
    rw [hSerial, hSerial]
    exact hBelongs.stack

/-- What a call that is not refused does to the compositor. -/
inductive Change (c : Compositor) : CompositorOp → Compositor → Prop where
  | created {owner request c' v} (h : Added c c' v) : Change c (.createSurface owner request) c'
  | destroyed {caller surface s} (h : c.findOwnedSlot caller surface = .ok s) :
      Change c (.destroySurface caller surface) (c.destroySurface caller surface).1
  | moved {caller surface bounds s} (hBounds : c.boundsValid bounds = true)
      (h : c.findOwnedSlot caller surface = .ok s) :
      Change c (.setBounds caller surface bounds) (c.modifySlot surface fun s =>
        { s with descriptor := { s.descriptor with bounds }, buffer := 0, hasFrame := false })
  | shown {caller surface visibility s} (h : c.findOwnedSlot caller surface = .ok s) :
      Change c (.setVisibility caller surface visibility) (c.modifySlot surface fun s =>
        { s with descriptor := { s.descriptor with visibility } })
  | activated {op surface root} (h : c.findSlot surface = some root)
      (hRole : root.descriptor.role = .application) (hSerial : c.nextStackSerial ≠ 0)
      (hOp : (∃ caller, op = .activateApplication caller surface) ∨
        ∃ caller owner, op = .activateApplicationExact caller owner surface) :
      Change c op (c.restack surface)
  | submitted {caller submission nowNs s}
      (h : c.findOwnedSlot caller submission.surface = .ok s) (hBuf : submission.buffer ≠ 0)
      (hSeq : s.frameSequence < submission.sequence) :
      Change c (.submitFrame caller submission nowNs) (c.modifySlot submission.surface fun s =>
        { s with
          buffer := submission.buffer
          frameSequence := submission.sequence
          bufferSlot := submission.bufferSlot
          hasFrame := true })
  | invalidated {buffer} : Change c (.invalidateBuffer buffer) (c.invalidateBuffer buffer)
  | revoked {process} : Change c (.revokeProcess process) (c.revokeProcess process)

/-- A call is refused and changes nothing, or changes what it names. -/
theorem step_cases (c : Compositor) (op : CompositorOp) :
    ((c.step op).2.refused = true ∧ (c.step op).1 = c) ∨
      ((c.step op).2.refused = false ∧ Change c op (c.step op).1) := by
  cases op with
  | createSurface owner request =>
    rw [step]
    rcases createSurface_cases c owner request with ⟨e, hErr⟩ | ⟨c', v, hOk, hAdded⟩
    · rw [hErr]
      exact .inl ⟨rfl, rfl⟩
    · rw [hOk]
      exact .inr ⟨rfl, .created hAdded⟩
  | destroySurface caller surface =>
    cases hOwned : c.findOwnedSlot caller surface with
    | error =>
      refine .inl ?_
      rw [step, destroySurface, hOwned]
      exact ⟨rfl, rfl⟩
    | ok =>
      refine .inr ⟨?_, .destroyed hOwned⟩
      rw [step, destroySurface, hOwned]
      rfl
  | setBounds caller surface =>
    rw [step, setBounds]
    split_ifs with hBounds
    · exact .inl ⟨rfl, rfl⟩
    · cases hOwned : c.findOwnedSlot caller surface with
      | error => exact .inl ⟨rfl, rfl⟩
      | ok => exact .inr ⟨rfl, .moved (by simpa using hBounds) hOwned⟩
  | setVisibility caller surface =>
    rw [step, setVisibility]
    cases hOwned : c.findOwnedSlot caller surface with
    | error => exact .inl ⟨rfl, rfl⟩
    | ok => exact .inr ⟨rfl, .shown hOwned⟩
  | activateApplication caller surface =>
    rw [step, activateApplication]
    split_ifs
    · exact .inl ⟨rfl, rfl⟩
    · exact .inl ⟨rfl, rfl⟩
    cases hFind : c.findSlot surface with
    | none => exact .inl ⟨rfl, rfl⟩
    | some =>
      dsimp only
      split_ifs with hDenied
      · exact .inl ⟨rfl, rfl⟩
      · rw [not_or, not_not] at hDenied
        exact .inr ⟨rfl, .activated hFind hDenied.1 hDenied.2 (.inl ⟨caller, rfl⟩)⟩
  | activateApplicationExact caller expectedOwner surface =>
    rw [step, activateApplicationExact]
    split_ifs
    · exact .inl ⟨rfl, rfl⟩
    · exact .inl ⟨rfl, rfl⟩
    cases hFind : c.findSlot surface with
    | none => exact .inl ⟨rfl, rfl⟩
    | some =>
      dsimp only
      split_ifs with hDenied
      · exact .inl ⟨rfl, rfl⟩
      · rw [not_or, not_or, not_not] at hDenied
        exact .inr ⟨rfl, .activated hFind hDenied.1 hDenied.2.2
          (.inr ⟨caller, expectedOwner, rfl⟩)⟩
  | submitFrame caller submission =>
    rw [step, submitFrame]
    cases hOwned : c.findOwnedSlot caller submission.surface with
    | error => exact .inl ⟨rfl, rfl⟩
    | ok =>
      dsimp only
      split_ifs with hBuf hReplay
      iterate 4 exact .inl ⟨rfl, rfl⟩
      · rw [not_or, UInt64.not_le] at hReplay
        exact .inr ⟨rfl, .submitted hOwned hBuf hReplay.2⟩
  | invalidateBuffer => exact .inr ⟨rfl, .invalidated⟩
  | revokeProcess => exact .inr ⟨rfl, .revoked⟩

theorem Change.sameBase (h : Change c op c') : c.SameBase c' := by
  cases h with
  | created hAdded => exact hAdded.base
  | @destroyed caller surface s hOwned =>
    rw [destroySurface, hOwned]
    exact ⟨rfl, rfl, rfl, rfl, le_refl _, le_refl _⟩
  | moved | shown => exact ⟨rfl, rfl, rfl, rfl, le_refl _, le_refl _⟩
  | activated _ _ hSerial =>
    refine ⟨rfl, rfl, rfl, rfl, le_refl _, ?_⟩
    exact (Nat.le_succ _).trans_eq (stacksGiven_bump hSerial).symm
  | submitted => exact ⟨rfl, rfl, rfl, rfl, le_refl _, le_refl _⟩
  | @invalidated buffer =>
    unfold invalidateBuffer
    split_ifs
    all_goals exact ⟨rfl, rfl, rfl, rfl, le_refl _, le_refl _⟩
  | @revoked process =>
    unfold revokeProcess
    split_ifs
    all_goals exact ⟨rfl, rfl, rfl, rfl, le_refl _, le_refl _⟩

theorem Change.sound (h : c.Sound) (hChange : Change c op c') : c'.Sound := by
  have hKeeps : ∀ f : Slot → Slot, (∀ s, (f s).occupied = s.occupied ∧
      (f s).descriptor.id = s.descriptor.id ∧ (f s).descriptor.owner = s.descriptor.owner ∧
      (f s).descriptor.role = s.descriptor.role ∧
      (f s).descriptor.parent = s.descriptor.parent) → Keeps f :=
    fun f hf => ⟨fun s => (hf s).1, fun s => (hf s).2.1, fun s => (hf s).2.2.1,
      fun s => (hf s).2.2.2.1, fun s => (hf s).2.2.2.2⟩
  cases hChange with
  | created hAdded => exact h.added hAdded
  | destroyed hOwned => exact h.destroySurface hOwned
  | moved hBounds =>
    rw [boundsValid, Bool.and_eq_true] at hBounds
    refine h.modifySlot (hKeeps _ fun _ => ⟨rfl, rfl, rfl, rfl, rfl⟩) (fun _ => rfl) ?_ ?_
    · intro s _ _
      exact Rect.inside_of_fits hBounds.2
    · intro s _ _
      simp
  | shown =>
    refine h.modifySlot (hKeeps _ fun _ => ⟨rfl, rfl, rfl, rfl, rfl⟩) (fun _ => rfl) ?_ ?_
    · intro s hs _
      exact h.inside s hs
    · intro s hs _
      exact h.framed s hs
  | activated hFind hRole hSerial => exact h.restack hFind hRole hSerial
  | submitted _ hBuf =>
    refine h.modifySlot (hKeeps _ fun _ => ⟨rfl, rfl, rfl, rfl, rfl⟩) (fun _ => rfl) ?_ ?_
    · intro s hs _
      exact h.inside s hs
    · intro s _ _
      simp [hBuf]
  | invalidated => exact h.invalidateBuffer _
  | revoked => exact h.revokeProcess _

theorem Sound.step (h : c.Sound) (op : CompositorOp) : (c.step op).1.Sound := by
  rcases step_cases c op with ⟨-, hSame⟩ | ⟨-, hChange⟩
  · rw [hSame]
    exact h
  · exact hChange.sound h

theorem sameBase_step (c : Compositor) (op : CompositorOp) : c.SameBase (c.step op).1 := by
  rcases step_cases c op with ⟨-, hSame⟩ | ⟨-, hChange⟩
  · rw [hSame]
    exact ⟨rfl, rfl, rfl, rfl, le_refl _, le_refl _⟩
  · exact hChange.sameBase

theorem surfaces_create (configuration : DisplayConfiguration)
    (trustedPrincipals : TrustedUiPrincipals) (generation : UInt64) :
    (create configuration trustedPrincipals generation).slots = replicate maxSurfaces {} ∧
      (create configuration trustedPrincipals generation).surfaceCount = 0 := by
  unfold create
  split_ifs
  all_goals exact ⟨rfl, rfl⟩

theorem sound_create (configuration : DisplayConfiguration)
    (trustedPrincipals : TrustedUiPrincipals) (generation : UInt64) :
    (create configuration trustedPrincipals generation).Sound := by
  obtain ⟨hSlots, hCnt⟩ := surfaces_create configuration trustedPrincipals generation
  have hNone : (create configuration trustedPrincipals generation).surfaces = [] := by
    rw [surfaces, hSlots]
    exact entries_replicate rfl _
  refine ⟨⟨?_, ?_, ?_, ?_, ?_, ?_, ?_, ?_, ?_, ?_⟩, ?_, ?_, ?_, ?_, ?_, ?_⟩
  · rw [hCnt, hNone]
    rfl
  iterate 9 simp [hNone]
  · rw [hSlots, length_replicate]
  iterate 4 simp [hNone]
  · unfold create
    split_ifs with hRefused
    · intro hValid
      cases hValid
    intro _
    simp only [Bool.or_eq_true, not_or, Bool.not_eq_true', Bool.not_eq_false] at hRefused
    have hGen := hRefused.1.1.1.1.1
    have hLe : generation ≤ maxDisplayObjectGeneration := by
      rw [validDisplayGeneration, Bool.and_eq_true, decide_eq_true_eq] at hGen
      exact hGen.2
    have hSame : generation.toUInt32.toUInt64 = generation := by
      refine UInt64.toNat_inj.mp ?_
      exact Nat.mod_eq_of_lt (Nat.lt_succ_of_le (UInt64.le_iff_toNat_le.mp hLe))
    rw [hSame]
    exact hGen

end Compositor

end Enml.OsDisplay
