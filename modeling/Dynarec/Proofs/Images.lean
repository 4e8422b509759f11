/-
  Dynarec.Proofs.Images — loading an image in place of another.

  An engine knows its image by the slot of its region. Slots are used again, and a load
  gives up the old image before it maps the new one, so both the slot that it empties and
  the state that it leaves if it fails have to be right.
  - `loadImage_eq`, `placeImage_cases`: a load empties the image's slot (`vacated`) and places
    the new image in what is left; once its region is mapped, nothing fails.
  - `Hosted.standing`: on every engine that a host can bring about, by induction on what it
    did, the image's slot holds the region of the image last loaded.
  - `loadImage_failed`: a load that fails leaves everything but the old image.
  - `Hosted.loadImage_exact`: a load replaces the old image's region, and no other.
-/

import Dynarec.Proofs.Regions
import Dynarec.Proofs.Runs
import Mathlib.Data.List.Basic

namespace Dynarec

open Code Memory
open Host (FloatUnit)

/-! ## Emptying a slot -/

namespace Memory.RegionTable

def clear (t : RegionTable) : Option Nat → RegionTable
  | none => t
  | some slot => ⟨t.slots.set slot none⟩

theorem get?_clear (t : RegionTable) (image : Option Nat) (slot : Nat) :
    (t.clear image).get? slot = if image = some slot then none else t.get? slot := by
  cases image with
  | none => rfl
  | some old =>
    by_cases lt : old < t.slots.length
    · rw [clear, get?_set t lt]
      by_cases same : slot = old
      · rw [if_pos same, if_pos (by rw [same])]
      · rw [if_neg same, if_neg fun eq => same (Option.some.inj eq).symm]
    · have past : t.slots.length ≤ old := Nat.not_lt.1 lt
      rw [clear, List.set_eq_of_length_le past]
      by_cases same : old = slot
      · subst same
        rw [if_pos rfl, get?, List.getElem?_eq_none past]
        rfl
      · rw [if_neg fun eq => same (Option.some.inj eq)]

theorem clear_of_free {t : RegionTable} {slot : Nat} (free : t.get? slot = none) : t.clear (some slot) = t := by
  obtain ⟨slots⟩ := t
  rw [clear, mk.injEq]
  by_cases lt : slot < slots.length
  · have empty : slots[slot] = none := by
      rw [get?, List.getElem?_eq_getElem lt] at free
      exact free
    rw [← empty]
    exact List.set_getElem_self lt
  · exact List.set_eq_of_length_le (Nat.not_lt.1 lt)

/-- An insertion names no slot when it fails. -/
theorem insert_error {t : RegionTable} {r : Region} {refusal : RegionError} (h : t.insert r = .error refusal)
    (slot : Nat) : refusal ≠ .unknownRegion slot := by
  rintro rfl
  unfold insert at h
  split at h
  · cases h
  · split at h
    · cases h
    · split at h <;> cases h

end Memory.RegionTable

theorem Memory.mapRegion_error {m : Memory} {start size : Nat} {permissions : Permissions} {name : String}
    {refusal : RegionError} (h : m.mapRegion start size permissions name = .error refusal) (slot : Nat) :
    refusal ≠ .unknownRegion slot := by
  intro unknown
  rw [unknown] at h
  unfold mapRegion at h
  split at h
  · cases h
  split at h
  · cases h
  split at h
  · cases h
  split at h
  · cases h
  · rename_i inserted
    cases h
    exact RegionTable.insert_error inserted slot rfl

/-- The host puts bytes where they fit. -/
theorem Memory.load_of_fits {m : Memory} {address : Nat} {bytes : List UInt8} (low : m.limits.minAddress ≤ address)
    (fits : address + bytes.length ≤ m.size) :
    m.load address bytes = (.ok (), { m with block := Block.store m.block address bytes }) := by
  simp only [load, hostCheck, overwrite, if_neg (Nat.not_lt.2 low), if_neg (Nat.not_lt.2 fits), if_pos fits]

/-! ## Loads -/

structure Image where
  address : Nat
  bytes : List UInt8

def Image.region (image : Image) : Region := ⟨image.address, image.bytes.length, ⟨true, true, true⟩, "image"⟩

namespace Engine

variable {σ : Type}

def vacated (e : Engine σ) : Engine σ :=
  { e with
    memory := { e.memory with table := e.memory.table.clear e.control.image }
    control := { e.control with image := none } }

def beside (e : Engine σ) (slot : Nat) : Option Region :=
  if e.control.image = some slot then none else e.memory.table.get? slot

theorem get?_vacated (e : Engine σ) (slot : Nat) : e.vacated.memory.table.get? slot = e.beside slot :=
  RegionTable.get?_clear _ _ _

theorem vacated_of_none {e : Engine σ} (none_ : e.control.image = none) : e.vacated = e := by
  obtain ⟨c, m, k⟩ := e
  obtain ⟨config, page, handler, events, phase, entry, image, callDepth, lastError⟩ := k
  obtain rfl : image = none := none_
  rfl

/-- A load places the image on the engine without the old one, unless it finds the old one's
    slot empty. -/
theorem loadImage_eq (address : Nat) (bytes : List UInt8) (entry : Word) (e : Engine σ) :
    (∃ slot, e.control.image = some slot ∧ e.memory.table.get? slot = none ∧
        loadImage address bytes entry e = (.error (.region (.unknownRegion slot)), e.vacated)) ∨
      loadImage address bytes entry e = placeImage address bytes entry e.vacated := by
  cases image : e.control.image with
  | none =>
    rw [vacated_of_none image]
    obtain ⟨c, m, k⟩ := e
    have image : k.image = none := image
    exact .inr (by simp only [loadImage, image])
  | some slot =>
    obtain ⟨c, m, k⟩ := e
    have image : k.image = some slot := image
    cases held : m.table.get? slot with
    | none =>
      refine .inl ⟨slot, rfl, held, ?_⟩
      simp only [loadImage, vacated, image, Memory.unmapRegion, RegionTable.remove, held,
        RegionTable.clear_of_free held]
    | some region =>
      right
      simp only [loadImage, vacated, image, Memory.unmapRegion, RegionTable.remove, held, RegionTable.clear]

/-- The image was placed: its region fills a slot that was free, or the old image's; its bytes
    are there; and the guest starts at the entry point. -/
structure Placed (image : Image) (entry : Word) (slot : Nat) (e e' : Engine σ) : Prop where
  cpu : e'.cpu = { e.cpu with rip := entry }
  control : e'.control = { e.control with image := some slot, entry, callDepth := 0 }
  free : e.beside slot = none
  table : ∀ other, e'.memory.table.get? other = if other = slot then some image.region else e.beside other
  bytes : ∀ a, e'.memory.byteAt a =
    if h : image.address ≤ a ∧ a < image.address + image.bytes.length then image.bytes[a - image.address]
    else e.memory.byteAt a

/-- Mapping the region can fail, and leaves the engine as it was; nothing after that can. -/
theorem placeImage_cases (address : Nat) (bytes : List UInt8) (entry : Word) (e : Engine σ) :
    (∃ refusal, e.memory.mapRegion address bytes.length writableCode "image" = .error refusal ∧
        placeImage address bytes entry e = (.error (.region refusal), e)) ∨
      ∃ slot table, e.memory.mapRegion address bytes.length writableCode "image" =
          .ok (slot, { e.memory with table }) ∧
        placeImage address bytes entry e =
          (.ok slot, ⟨{ e.cpu with rip := entry }, ⟨Block.store e.memory.block address bytes, table, e.memory.limits⟩,
            { e.control with image := some slot, entry, callDepth := 0 }⟩) := by
  obtain ⟨c, m, k⟩ := e
  simp only [placeImage]
  cases mapped : m.mapRegion address bytes.length writableCode "image" with
  | error refusal => exact .inl ⟨refusal, rfl, rfl⟩
  | ok placed =>
    obtain ⟨slot, m'⟩ := placed
    obtain ⟨-, low, high, table, -, rfl⟩ := mapRegion_ok mapped
    have copied := Memory.load_of_fits (m := { m with table }) low high
    exact .inr ⟨slot, table, rfl, by simp only [copied]⟩

theorem placed_of_placeImage {address slot : Nat} {bytes : List UInt8} {entry : Word} {e e' : Engine σ}
    (h : placeImage address bytes entry e.vacated = (.ok slot, e')) : Placed ⟨address, bytes⟩ entry slot e e' := by
  rcases placeImage_cases address bytes entry e.vacated with ⟨refusal, -, refused⟩ | ⟨_, table, mapped, placed⟩
  · rw [refused] at h
    cases h
  · rw [placed] at h
    cases h
    obtain ⟨-, -, high, table', inserted, same⟩ := mapRegion_ok mapped
    obtain rfl : table = table' := congrArg Memory.table same
    obtain ⟨-, free, puts, -⟩ := RegionTable.insert_ok inserted
    refine ⟨rfl, rfl, ?_, fun other => ?_, fun a => ?_⟩
    · rw [← get?_vacated]
      exact free
    · rw [← get?_vacated]
      exact puts other
    · exact Block.byteAt_store bytes e.memory.block address a high

/-- However a load fails, the old image is gone and nothing else has changed; and it fails
    for want of a region, of the old image or of the new. -/
theorem vacated_of_loadImage {address : Nat} {bytes : List UInt8} {entry : Word} {e e' : Engine σ}
    {cause : EngineError} (h : loadImage address bytes entry e = (.error cause, e')) :
    e' = e.vacated ∧
      ((∃ slot, e.control.image = some slot ∧ e.memory.table.get? slot = none) ∨
        ∃ refusal, cause = .region refusal ∧
          e.vacated.memory.mapRegion address bytes.length writableCode "image" = .error refusal) := by
  rcases loadImage_eq address bytes entry e with ⟨slot, image, stale, failed⟩ | placing
  · rw [failed] at h
    cases h
    exact ⟨rfl, .inl ⟨slot, image, stale⟩⟩
  · rw [placing] at h
    rcases placeImage_cases address bytes entry e.vacated with ⟨refusal, refused, ran⟩ | ⟨slot, table, -, ran⟩
    · rw [ran] at h
      cases h
      exact ⟨rfl, .inr ⟨refusal, rfl, refused⟩⟩
    · rw [ran] at h
      cases h

theorem loadImage_ok {address slot : Nat} {bytes : List UInt8} {entry : Word} {e e' : Engine σ}
    (h : loadImage address bytes entry e = (.ok slot, e')) : Placed ⟨address, bytes⟩ entry slot e e' := by
  rcases loadImage_eq address bytes entry e with ⟨slot, -, -, failed⟩ | placing
  · rw [failed] at h
    cases h
  · rw [placing] at h
    exact placed_of_placeImage h

/-! ## Engines in use -/

/-- An engine as its host can bring it about, and the image that was last loaded. The host may
    change the guest, its bytes and the trap handler at any time, but the regions only by
    these calls, and the handler leaves them alone. -/
inductive Hosted [FloatUnit] : Option Image → Engine σ → Prop
  | create {config : Config} {handler : TrapHandler σ} {map : Mapper} {t t' : PageTable} {e : Engine σ} :
      handler.KeepsRegions → create config handler map t = (.ok e, t') → Hosted none e
  | load {last : Option Image} {e e' : Engine σ} {address slot : Nat} {bytes : List UInt8} {entry : Word} :
      Hosted last e → loadImage address bytes entry e = (.ok slot, e') → Hosted (some ⟨address, bytes⟩) e'
  | loadFailed {last : Option Image} {e e' : Engine σ} {address : Nat} {bytes : List UInt8} {entry : Word}
      {cause : EngineError} :
      Hosted last e → loadImage address bytes entry e = (.error cause, e') → Hosted last e'
  | map {last : Option Image} {e : Engine σ} (start size : Nat) (permissions : Permissions) (name : String) :
      Hosted last e → Hosted last (mapRegion start size permissions name e).2
  | unmap {last : Option Image} {e : Engine σ} (slot : Nat) : Hosted last e → Hosted last (unmapRegion slot e).2
  | step {last : Option Image} {e : Engine σ} (t : PageTable) : Hosted last e → Hosted last (step t e).2.1
  | run {last : Option Image} {e : Engine σ} (limit : Nat) (t : PageTable) :
      Hosted last e → Hosted last (runFor limit t (begin e)).2.1
  | reset {last : Option Image} {e : Engine σ} (t : PageTable) : Hosted last e → Hosted last (reset t e).2.1
  | host {last : Option Image} {e e' : Engine σ} : Hosted last e → e'.memory.table = e.memory.table →
      e'.control.image = e.control.image → e'.control.handler.KeepsRegions → Hosted last e'

structure Standing (last : Option Image) (e : Engine σ) : Prop where
  keeps : e.control.handler.KeepsRegions
  region : ∀ slot, e.control.image = some slot → ∃ image, last = some image ∧
    e.memory.table.get? slot = some image.region

theorem Standing.untouched {last : Option Image} {e e' : Engine σ} (h : Standing last e) (untouched : Untouched e e') :
    Standing last e' where
  keeps := h.keeps.congr untouched.setup.answer
  region := by
    rw [untouched.setup.image, untouched.table h.keeps]
    exact h.region

theorem Standing.of_none {last : Option Image} {e : Engine σ} (keeps : e.control.handler.KeepsRegions)
    (none_ : e.control.image = none) : Standing last e where
  keeps := keeps
  region slot image := by
    rw [none_] at image
    cases image

/-- A region is mapped in a slot that was free, so not in the image's. -/
theorem Standing.map {last : Option Image} {e : Engine σ} (h : Standing last e) (start size : Nat)
    (permissions : Permissions) (name : String) : Standing last (mapRegion start size permissions name e).2 := by
  obtain ⟨c, m, k⟩ := e
  simp only [mapRegion]
  cases mapped : m.mapRegion start size permissions name with
  | error refusal => exact h
  | ok result =>
    obtain ⟨slot, m'⟩ := result
    obtain ⟨-, -, -, table, inserted, rfl⟩ := mapRegion_ok mapped
    obtain ⟨-, free, puts, -⟩ := RegionTable.insert_ok inserted
    refine ⟨h.keeps, ?_⟩
    intro old image
    obtain ⟨loaded, last_, held⟩ := h.region old image
    have held : m.table.get? old = some loaded.region := held
    have ne : old ≠ slot := by
      rintro rfl
      rw [free] at held
      cases held
    exact ⟨loaded, last_, (puts.elsewhere ne).trans held⟩

/-- If the image's slot is emptied, the engine knows. -/
theorem Standing.unmap {last : Option Image} {e : Engine σ} (h : Standing last e) (slot : Nat) :
    Standing last (unmapRegion slot e).2 := by
  obtain ⟨c, m, k⟩ := e
  simp only [unmapRegion]
  by_cases own : k.image = some slot
  · rw [if_pos own]
    cases m.unmapRegion slot with
    | error refusal => exact .of_none h.keeps rfl
    | ok result => exact .of_none h.keeps rfl
  · rw [if_neg own]
    cases unmapped : m.unmapRegion slot with
    | error refusal => exact h
    | ok result =>
      obtain ⟨region, m'⟩ := result
      obtain ⟨table, removed, rfl⟩ := unmapRegion_ok unmapped
      obtain ⟨-, puts, -⟩ := RegionTable.remove_ok removed
      refine ⟨h.keeps, ?_⟩
      intro old image
      obtain ⟨loaded, last_, held⟩ := h.region old image
      have ne : old ≠ slot := by
        rintro rfl
        exact own image
      exact ⟨loaded, last_, (puts.elsewhere ne).trans held⟩

theorem control_of_create {config : Config} {handler : TrapHandler σ} {map : Mapper} {t t' : PageTable}
    {e : Engine σ} (h : create config handler map t = (.ok e, t')) :
    e.control.handler = handler ∧ e.control.image = none := by
  unfold create at h
  split at h
  · cases h
  · split at h
    · cases h
    · split at h
      · cases h
      · cases h
        exact ⟨rfl, rfl⟩

/-- By induction on what the host did. -/
theorem Hosted.standing [FloatUnit] {last : Option Image} {e : Engine σ} (h : Hosted last e) : Standing last e := by
  induction h with
  | create keeps created =>
    obtain ⟨handler, none_⟩ := control_of_create created
    exact .of_none (keeps.congr (congrArg TrapHandler.answer handler)) none_
  | @load last e e' address slot bytes entry _ loaded ih =>
    have placed := loadImage_ok loaded
    refine ⟨?_, ?_⟩
    · rw [placed.control]
      exact ih.keeps
    · intro old image
      rw [placed.control] at image
      obtain rfl : slot = old := Option.some.inj image
      exact ⟨⟨address, bytes⟩, rfl, (placed.table slot).trans (if_pos rfl)⟩
  | loadFailed _ failed ih =>
    obtain ⟨rfl, -⟩ := vacated_of_loadImage failed
    exact .of_none ih.keeps rfl
  | map start size permissions name _ ih => exact ih.map start size permissions name
  | unmap slot _ ih => exact ih.unmap slot
  | @step last e t _ ih => exact ih.untouched (untouched_step t e)
  | @run last e limit t _ ih =>
    exact ih.untouched ((untouched_begin e).trans (untouched_runFor limit t (begin e)))
  | @reset last e t _ ih => exact ih.untouched (untouched_reset t e)
  | host _ table image keeps ih =>
    refine ⟨keeps, ?_⟩
    rw [image, table]
    exact ih.region

/-! ## What a load changes -/

/-- A load that fails leaves the guest, its bytes, every other region and the rest of the
    engine as they were. The old image is gone, and if there was none, nothing has changed. -/
theorem loadImage_failed {address : Nat} {bytes : List UInt8} {entry : Word} {e e' : Engine σ} {cause : EngineError}
    (h : loadImage address bytes entry e = (.error cause, e')) :
    e'.cpu = e.cpu ∧ e'.memory.block = e.memory.block ∧ e'.memory.limits = e.memory.limits ∧
      e'.control = { e.control with image := none } ∧
      (∀ slot, e'.memory.table.get? slot = if e.control.image = some slot then none else e.memory.table.get? slot) ∧
      (e.control.image = none → e' = e) := by
  obtain ⟨rfl, -⟩ := vacated_of_loadImage h
  exact ⟨rfl, rfl, rfl, rfl, get?_vacated e, vacated_of_none⟩

/-- An engine as it is created, with 48 bytes below its stack. -/
def vacant : Engine Unit :=
  let config := { smallConfig with memorySize := 64 }
  ⟨freshCpu (createCpu config) 0,
    ⟨Block.zeros 64, ⟨[some ⟨48, 16, writableData, "stack"⟩]⟩, ⟨config.policy, 0, config.memoryCeiling⟩⟩,
    { config, page := 0, handler := .zero (), entry := 0, events := .create config.eventCapacity }⟩

theorem hosted_vacant : Hosted none vacant := by
  have created : create vacant.control.config (.zero ()) .always {} = (.ok vacant, firstPage) := rfl
  exact .create (fun _ _ _ _ => rfl) created

def loaded : Engine Unit := (loadImage 16 [0x90, 0xc3] 16 vacant).2

theorem hosted_loaded : Hosted (some ⟨16, [0x90, 0xc3]⟩) loaded := by
  have answered : (loadImage 16 [0x90, 0xc3] 16 vacant).1 = .ok 1 := by decide +kernel
  exact hosted_vacant.load (Prod.ext answered rfl)

/-- An image that runs into the stack is refused: the stack stays, the old image does not. -/
theorem loadImage_failed_loaded :
    ∃ e', loadImage 40 (List.replicate 16 0x90) 40 loaded = (.error (.region (.overlap "image" 40 16 "stack")), e') ∧
      loaded.memory.table.get? 1 = some ⟨16, 2, writableCode, "image"⟩ ∧ e'.memory.table.get? 1 = none ∧
      e'.memory.table.get? 0 = some ⟨48, 16, writableData, "stack"⟩ ∧ e'.cpu = loaded.cpu := by
  have answered : (loadImage 40 (List.replicate 16 0x90) 40 loaded).1 =
      .error (.region (.overlap "image" 40 16 "stack")) := by decide +kernel
  have image : loaded.control.image = some 1 := by decide +kernel
  have held : loaded.memory.table.get? 1 = some ⟨16, 2, writableCode, "image"⟩ := by decide +kernel
  have stack : loaded.memory.table.get? 0 = some ⟨48, 16, writableData, "stack"⟩ := by decide +kernel
  rcases h : loadImage 40 (List.replicate 16 0x90) 40 loaded with ⟨outcome, e'⟩
  rw [h] at answered
  obtain rfl : outcome = .error (.region (.overlap "image" 40 16 "stack")) := answered
  obtain ⟨cpu, -, -, -, table, -⟩ := loadImage_failed h
  refine ⟨e', rfl, held, ?_, ?_, cpu⟩
  · rw [table, if_pos image]
  · rw [table, if_neg (by rw [image]; decide), stack]

/-- So a load that fails may change the regions, and leave the engine without an image. -/
theorem loadImage_not_atomic :
    ¬ ∀ (last : Option Image) (e e' : Engine Unit) (address : Nat) (bytes : List UInt8) (entry : Word)
      (cause : EngineError), Hosted last e → loadImage address bytes entry e = (.error cause, e') →
        e'.memory.table = e.memory.table ∧ e'.memory.block = e.memory.block ∧ e'.control.image = e.control.image ∧
          e'.control.entry = e.control.entry ∧ e'.cpu.rip = e.cpu.rip ∧
          e'.control.callDepth = e.control.callDepth := by
  intro atomic
  have refused : (loadImage 16 [] 16 loaded).1 = .error (.region (.zeroSize "image")) := by decide +kernel
  have changed : (loadImage 16 [] 16 loaded).2.control.image ≠ loaded.control.image := by decide +kernel
  obtain ⟨-, -, image, -⟩ := atomic _ _ _ _ _ _ _ hosted_loaded (Prod.ext refused rfl)
  exact changed image

/-- On every engine that a host can bring about: the image's slot holds the region of the
    image last loaded. A load never finds that slot empty, and once it has mapped the new
    region it goes through. It empties the image's slot and no other, whether it fails or
    not; if not, the new region is in a slot that was free by then, and the bytes in place. -/
theorem Hosted.loadImage_exact [FloatUnit] {last : Option Image} {e : Engine σ} (hosted : Hosted last e) :
    (∀ slot, e.control.image = some slot → ∃ image, last = some image ∧
        e.memory.table.get? slot = some image.region) ∧
      ∀ address bytes entry,
        (∀ cause e', loadImage address bytes entry e = (.error cause, e') →
          (∃ refusal, cause = .region refusal ∧ ∀ slot, refusal ≠ .unknownRegion slot) ∧
            e'.control.image = none ∧ ∀ slot, e'.memory.table.get? slot = e.beside slot) ∧
        (∀ slot m, e.vacated.memory.mapRegion address bytes.length writableCode "image" = .ok (slot, m) →
          ∃ e', loadImage address bytes entry e = (.ok slot, e')) ∧
        ∀ slot e', loadImage address bytes entry e = (.ok slot, e') → Placed ⟨address, bytes⟩ entry slot e e' := by
  have standing := hosted.standing
  have fresh : ¬ ∃ slot, e.control.image = some slot ∧ e.memory.table.get? slot = none := by
    rintro ⟨slot, image, stale⟩
    obtain ⟨loaded, -, held⟩ := standing.region slot image
    rw [stale] at held
    cases held
  refine ⟨standing.region, fun address bytes entry => ⟨?_, ?_, fun slot e' => loadImage_ok⟩⟩
  · intro cause e' failed
    obtain ⟨rfl, stale | ⟨refusal, rfl, refused⟩⟩ := vacated_of_loadImage failed
    · exact absurd stale fresh
    · exact ⟨⟨refusal, rfl, mapRegion_error refused⟩, rfl, get?_vacated e⟩
  · intro slot m mapped
    rcases loadImage_eq address bytes entry e with ⟨old, image, stale, -⟩ | placing
    · exact absurd ⟨old, image, stale⟩ fresh
    · rcases placeImage_cases address bytes entry e.vacated with ⟨refusal, refused, -⟩ | ⟨slot', table, mapped', ran⟩
      · rw [mapped] at refused
        cases refused
      · rw [mapped] at mapped'
        cases mapped'
        exact ⟨_, placing.trans ran⟩

/-- An engine on which slots were used again: the image is where a region was unmapped, and
    where the first image was, there is a region of data. -/
def reused : Engine Unit :=
  let mapped := (mapRegion 0 8 writableData "data" vacant).2
  let first := (loadImage 16 [0x90, 0xc3] 16 mapped).2
  let second := (loadImage 24 [0xc3] 24 (unmapRegion 1 first).2).2
  (mapRegion 16 8 writableData "more" second).2

theorem hosted_reused : Hosted (some ⟨24, [0xc3]⟩) reused := by
  have first := hosted_vacant.map 0 8 writableData "data"
  have answered : (loadImage 16 [0x90, 0xc3] 16 (mapRegion 0 8 writableData "data" vacant).2).1 = .ok 2 := by
    decide +kernel
  have second := (first.load (Prod.ext answered rfl)).unmap 1
  have answered : (loadImage 24 [0xc3] 24 (unmapRegion 1 (loadImage 16 [0x90, 0xc3] 16
      (mapRegion 0 8 writableData "data" vacant).2).2).2).1 = .ok 1 := by decide +kernel
  exact (second.load (Prod.ext answered rfl)).map 16 8 writableData "more"

/-- A load there takes the image's slot, and leaves the region of data. -/
theorem Hosted.loadImage_exact_reused :
    reused.control.image = some 1 ∧ reused.memory.table.get? 1 = some ⟨24, 1, writableCode, "image"⟩ ∧
      ∃ e', loadImage 0 [0x90] 0 reused = (.ok 1, e') ∧
        e'.memory.table.get? 1 = some ⟨0, 1, writableCode, "image"⟩ ∧
        e'.memory.table.get? 2 = some ⟨16, 8, writableData, "more"⟩ ∧ e'.memory.byteAt 0 = 0x90 := by
  have slot : reused.control.image = some 1 := by decide +kernel
  have data : reused.memory.table.get? 2 = some ⟨16, 8, writableData, "more"⟩ := by decide +kernel
  have answered : (loadImage 0 [0x90] 0 reused).1 = .ok 1 := by decide +kernel
  obtain ⟨region, loads⟩ := Hosted.loadImage_exact hosted_reused
  obtain ⟨image, last, held⟩ := region 1 slot
  obtain rfl : ⟨24, [0xc3]⟩ = image := Option.some.inj last
  obtain ⟨-, -, exact⟩ := loads 0 [0x90] 0
  have placed := exact 1 _ (Prod.ext answered rfl)
  refine ⟨slot, held, _, Prod.ext answered rfl, ?_, ?_, ?_⟩
  · rw [placed.table, if_pos rfl]
    rfl
  · rw [placed.table, if_neg (by decide), beside, slot, if_neg (by decide), data]
  · rw [placed.bytes, dif_pos (by decide)]
    rfl

end Engine

end Dynarec
