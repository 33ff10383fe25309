import FireControl.Proofs.Toml.Document
import FireControl.Settings.File

/-!
# Settings Read Back

Settings are written with every field, and each field finds its value again under its key. Texts,
integers, flags and the numbers in double precision come back as they are. The numbers in single
precision come back too, but for two, and there is no way around these with this pair of a writer
and a reader: `Settings.text_reads_back_iff` is the exact condition.

The fields are read into the defaults one after the other, so what is read is a fold over the table
of fields. `SettingsField.transfer` is one step of it. There is one lemma for each type of a field,
and with them the fold computes to settings that have every field replaced.

## Main definitions

* `SettingsField.transfer`: One field written and read.
* `Settings.reread`: The settings that are read where settings were written.
* `Settings.singles`: The numbers in single precision in settings.

## Theorems

* `Settings.ofText_text`: What is read where settings were written.
* `Settings.text_reads_back_iff`: When settings come back.
-/

namespace FireControl

open Toml (Scalar Value Entries IsKey Section)

/-! ### Fields -/

namespace SettingsField

/-- The settings `t` with the value that is read where a field of `s` was written. A field that is
left open is not written. -/
def transfer (s : Settings) (field : SettingsField) (t : Settings) : Option Settings :=
  match field.get? s with
  | none => some t
  | some v => field.set? v.reread t

/-- A field whose integers are words. -/
def WritesWords (field : SettingsField) : Prop :=
  ∀ s, ∀ v ∈ field.get? s, v.IsWord

variable {key : String} (s t : Settings)

theorem asWord64_toNat (x : UInt64) : Scalar.asWord64 (.integer x.toNat) = some x := by
  have hlt : x.toNat < UInt64.size := x.toNat_lt_size
  rw [Scalar.asWord64, Scalar.asBelow, if_pos ⟨by omega, by omega⟩]
  simp

theorem asWord32_toNat (x : UInt32) : Scalar.asWord32 (.integer x.toNat) = some x := by
  have hlt : x.toNat < UInt32.size := x.toNat_lt_size
  rw [Scalar.asWord32, Scalar.asBelow, if_pos ⟨by omega, by omega⟩]
  simp

theorem transfer_double (get : Settings → Float) (set : Float → Settings → Settings) :
    (double key get set).transfer s t = some (set (get s) t) := rfl

theorem transfer_single (get : Settings → Float32) (set : Float32 → Settings → Settings) :
    (single key get set).transfer s t = some (set (get s).reread t) := by
  rw [← Toml.Bare.narrow_reading]
  rfl

theorem transfer_word64 (get : Settings → UInt64) (set : UInt64 → Settings → Settings) :
    (word64 key get set).transfer s t = some (set (get s) t) := by
  unfold transfer word64
  simp only [Scalar.reread]
  rw [asWord64_toNat, Option.map_some]

theorem transfer_word64? (get : Settings → Option UInt64)
    (set : Option UInt64 → Settings → Settings) :
    (word64? key get set).transfer s t =
      some (match get s with
        | none => t
        | some x => set (some x) t) := by
  unfold transfer word64?
  simp only
  cases get s with
  | none => rfl
  | some x =>
      simp only [Option.map_some, Scalar.reread]
      rw [asWord64_toNat, Option.map_some]

theorem transfer_word32 (get : Settings → UInt32) (set : UInt32 → Settings → Settings) :
    (word32 key get set).transfer s t = some (set (get s) t) := by
  unfold transfer word32
  simp only [Scalar.reread]
  rw [asWord32_toNat, Option.map_some]

theorem transfer_flag (get : Settings → Bool) (set : Bool → Settings → Settings) :
    (flag key get set).transfer s t = some (set (get s) t) := rfl

theorem transfer_text (get : Settings → String) (set : String → Settings → Settings) :
    (text key get set).transfer s t = some (set (get s) t) := rfl

theorem isWord_toNat64 (x : UInt64) : Scalar.IsWord (.integer x.toNat) := by
  have := x.toNat_lt
  exact ⟨by omega, by omega⟩

theorem isWord_toNat32 (x : UInt32) : Scalar.IsWord (.integer x.toNat) := by
  have := x.toNat_lt
  exact ⟨by omega, by omega⟩

theorem writesWords_double (get : Settings → Float) (set : Float → Settings → Settings) :
    (double key get set).WritesWords := fun _ _ h => Option.some.inj h ▸ trivial

theorem writesWords_single (get : Settings → Float32) (set : Float32 → Settings → Settings) :
    (single key get set).WritesWords := fun _ _ h => Option.some.inj h ▸ trivial

theorem writesWords_word64 (get : Settings → UInt64) (set : UInt64 → Settings → Settings) :
    (word64 key get set).WritesWords := fun _ _ h => Option.some.inj h ▸ isWord_toNat64 _

theorem writesWords_word64? (get : Settings → Option UInt64)
    (set : Option UInt64 → Settings → Settings) : (word64? key get set).WritesWords := by
  intro s v h
  rcases Option.map_eq_some_iff.mp h with ⟨x, -, rfl⟩
  exact isWord_toNat64 x

theorem writesWords_word32 (get : Settings → UInt32) (set : UInt32 → Settings → Settings) :
    (word32 key get set).WritesWords := fun _ _ h => Option.some.inj h ▸ isWord_toNat32 _

theorem writesWords_flag (get : Settings → Bool) (set : Bool → Settings → Settings) :
    (flag key get set).WritesWords := fun _ _ h => Option.some.inj h ▸ trivial

theorem writesWords_text (get : Settings → String) (set : String → Settings → Settings) :
    (text key get set).WritesWords := fun _ _ h => Option.some.inj h ▸ trivial

end SettingsField

/-- The settings that are read where `s` was written. -/
def Settings.reread (s : Settings) : Settings where
  pipeline := s.pipeline
  tracker :=
    { ttl := s.tracker.ttl
      defaultRadius := s.tracker.defaultRadius.reread
      minConfidence := s.tracker.minConfidence.reread }
  estimator :=
    { period := s.estimator.period
      particleCount := s.estimator.particleCount
      seed := s.estimator.seed
      positionNoise := s.estimator.positionNoise.reread
      yawNoise := s.estimator.yawNoise.reread }
  aim :=
    { initialBulletSpeed := s.aim.initialBulletSpeed.reread
      initialProcessingTime := s.aim.initialProcessingTime.reread
      speedAlpha := s.aim.speedAlpha.reread
      latencyAlpha := s.aim.latencyAlpha.reread
      actuationLatency := s.aim.actuationLatency.reread
      convergenceThreshold := s.aim.convergenceThreshold.reread
      maxIterations := s.aim.maxIterations
      gravity := s.aim.gravity.reread
      chaseDistance := s.aim.chaseDistance.reread
      fireYawTolerance := s.aim.fireYawTolerance.reread
      firePitchTolerance := s.aim.firePitchTolerance.reread }
  gimbal :=
    { pitchMin := s.gimbal.pitchMin.reread
      pitchMax := s.gimbal.pitchMax.reread
      yawMin := s.gimbal.yawMin.reread
      yawMax := s.gimbal.yawMax.reread
      safetyMargin := s.gimbal.safetyMargin.reread
      yawLimited := s.gimbal.yawLimited }
  serial := s.serial

/-- Every field is read in turn. -/
theorem Settings.foldlM_transfer (s : Settings) :
    SettingsSection.all.foldlM
      (fun t part => part.fields.foldlM (fun t field => field.transfer s t) t) default =
      some s.reread := by
  simp only [SettingsSection.all, SettingsSection.pipeline, SettingsSection.tracker,
    SettingsSection.estimator, SettingsSection.aim, SettingsSection.gimbal,
    SettingsSection.serial, List.foldlM_cons, List.foldlM_nil, SettingsField.transfer_double,
    SettingsField.transfer_single, SettingsField.transfer_word64, SettingsField.transfer_word64?,
    SettingsField.transfer_word32, SettingsField.transfer_flag, SettingsField.transfer_text,
    Option.bind_eq_bind, Option.bind_some, Option.pure_def]
  -- Every field but the seed is always written; the seed only where one is set.
  cases hseed : s.estimator.seed with
  | none => simp only [Settings.reread, hseed]; rfl
  | some x => simp only [Settings.reread, hseed]

/-! ### Sections -/

instance (key : String) : Decidable (IsKey key) :=
  decidable_of_iff (key.toList ≠ [] ∧ key.toList.all Toml.isKeyPart = true)
    ⟨fun h => ⟨h.1, List.all_eq_true.mp h.2⟩, fun h => ⟨h.1, List.all_eq_true.mpr h.2⟩⟩

theorem find?_of_mem {α : Type} {name : α → String} {l : List α} (h : (l.map name).Nodup) {a : α}
    (ha : a ∈ l) : (l.find? fun b => name b = name a) = some a := by
  induction l with
  | nil => exact absurd ha List.not_mem_nil
  | cons b l ih =>
      rw [List.map_cons, List.nodup_cons] at h
      rcases List.mem_cons.mp ha with rfl | ha
      · exact List.find?_cons_of_pos (decide_eq_true rfl)
      · have hne : name b ≠ name a := fun heq => h.1 (heq ▸ List.mem_map_of_mem ha)
        rw [List.find?_cons_of_neg (by simpa using hne), ih h.2 ha]

namespace SettingsSection

open SettingsField

/-- Names and keys need no quotes, and each is there once. -/
theorem all_distinct :
    (all.map SettingsSection.name).Nodup ∧
      ∀ part ∈ all, IsKey part.name ∧ (part.fields.map SettingsField.key).Nodup ∧
        ∀ field ∈ part.fields, IsKey field.key := by
  decide +kernel

theorem writesWords_all : ∀ part ∈ all, ∀ field ∈ part.fields, field.WritesWords := by
  simp only [all, pipeline, tracker, estimator, aim, gimbal, serial, List.forall_mem_cons,
    writesWords_double, writesWords_single, writesWords_word64, writesWords_word64?,
    writesWords_word32, writesWords_flag, writesWords_text, List.not_mem_nil, false_implies,
    implies_true, and_true]

/-- The sections of settings can be written. -/
theorem fit_ofSettings {part : SettingsSection} (h : part ∈ all) (s : Settings) :
    (part.ofSettings s).Fit := by
  rcases all_distinct.2 part h with ⟨hname, hnodup, hkey⟩
  -- Every entry written comes from a field of the section, with its key and its value.
  have hmem {entry : String × Scalar} (hentry : entry ∈ (part.ofSettings s).entries) :
      ∃ field ∈ part.fields, field.key = entry.1 ∧ field.get? s = some entry.2 := by
    rcases List.mem_filterMap.mp hentry with ⟨field, hfield, hmap⟩
    rcases Option.map_eq_some_iff.mp hmap with ⟨v, hget, rfl⟩
    exact ⟨field, hfield, rfl, hget⟩
  refine ⟨hname, fun entry hentry => ?_, fun entry hentry => ?_, ?_⟩
  · rcases hmem hentry with ⟨field, hfield, heq, -⟩
    exact heq ▸ hkey field hfield
  · rcases hmem hentry with ⟨field, hfield, -, hget⟩
    exact writesWords_all part h field hfield s entry.2 hget
  -- Absent values are left out, so the keys written are some of the fields' keys, in order.
  · have hsublist (fields : List SettingsField) : ((fields.filterMap fun field =>
        (field.get? s).map fun v => (field.key, v)).map Prod.fst).Sublist
          (fields.map SettingsField.key) := by
      induction fields with
      | nil => exact List.Sublist.slnil
      | cons field fields ih =>
          rw [List.filterMap_cons]
          cases field.get? s with
          | none => exact ih.cons _
          | some v => exact ih.cons_cons _
    exact (hsublist part.fields).nodup hnodup

/-- A key is read into the field that has it. -/
theorem readEntry?_of_mem {part : SettingsSection} (h : part ∈ all) {field : SettingsField}
    (hfield : field ∈ part.fields) (v : Scalar) (t : Settings) :
    part.readEntry? t (field.key, .scalar v) = field.set? v t := by
  have hfind : part.field? field.key = some field :=
    find?_of_mem (all_distinct.2 part h).2.1 hfield
  unfold readEntry?
  rw [hfind]
  rfl

/-- A section is read field by field. -/
theorem read?_ofSettings {part : SettingsSection} (h : part ∈ all) (s t : Settings) :
    part.read? (.table .header
        ((part.ofSettings s).entries.map fun (key, v) => (key, .scalar v.reread))) t =
      part.fields.foldlM (fun t field => field.transfer s t) t := by
  have hfields (fields : List SettingsField) (hsubset : ∀ field ∈ fields, field ∈ part.fields)
      (t : Settings) :
      ((fields.filterMap fun field => (field.get? s).map fun v => (field.key, v)).map
          fun (key, v) => (key, Value.scalar v.reread)).foldlM part.readEntry? t =
        fields.foldlM (fun t field => field.transfer s t) t := by
    induction fields generalizing t with
    | nil => rfl
    | cons field fields ih =>
        have hrest := ih fun field hfield => hsubset field (List.mem_cons_of_mem _ hfield)
        -- A field without a value is not written, and the fold leaves it alone as well.
        rw [List.filterMap_cons, List.foldlM_cons, transfer]
        cases field.get? s with
        | none => exact hrest t
        | some v =>
            have hentry := readEntry?_of_mem h (hsubset field List.mem_cons_self) v.reread t
            simp only [Option.map_some, List.map_cons, List.foldlM_cons]
            rw [hentry]
            simp only [hrest]
  exact hfields part.fields (fun _ hfield => hfield) t

end SettingsSection

namespace Settings

/-- What is read where settings were written, before it is checked. -/
theorem ofEntries?_tree (s : Settings) : ofEntries? (Toml.tree s.sections) = some s.reread := by
  rw [← foldlM_transfer, ofEntries?, Toml.tree, sections]
  -- The table of sections is no argument of either side, so the induction is on a part of it.
  have hparts (parts : List SettingsSection) (hsubset : ∀ part ∈ parts, part ∈ SettingsSection.all)
      (t : Settings) :
      ((parts.map fun part => part.ofSettings s).map fun part => (part.name,
          Value.table .header (part.entries.map fun (key, v) => (key, .scalar v.reread)))).foldlM
            readEntry? t =
        parts.foldlM (fun t part => part.fields.foldlM (fun t field => field.transfer s t) t)
          t := by
    induction parts generalizing t with
    | nil => rfl
    | cons part parts ih =>
        have hpart := hsubset part List.mem_cons_self
        have hfind : SettingsSection.ofName? part.name = some part :=
          find?_of_mem SettingsSection.all_distinct.1 hpart
        have hread : readEntry? t (part.name, Value.table .header
            ((part.ofSettings s).entries.map fun (key, v) => (key, .scalar v.reread))) =
            part.fields.foldlM (fun t field => field.transfer s t) t := by
          rw [← SettingsSection.read?_ofSettings hpart, readEntry?, hfind]
        have hrest := ih fun part hpart => hsubset part (List.mem_cons_of_mem _ hpart)
        rw [List.map_cons, List.map_cons, List.foldlM_cons, List.foldlM_cons]
        simp only [hrest]
        exact congrArg (· >>= _) hread
  exact hparts SettingsSection.all (fun _ hpart => hpart) default

theorem fit_sections (s : Settings) : ∀ part ∈ s.sections, part.Fit := by
  intro part hpart
  rcases List.mem_map.mp hpart with ⟨section', hmem, rfl⟩
  exact SettingsSection.fit_ofSettings hmem s

theorem nodup_sections (s : Settings) : (s.sections.map Section.name).Nodup := by
  have hnames : s.sections.map Section.name = SettingsSection.all.map SettingsSection.name := by
    rw [sections, List.map_map]
    exact List.map_congr_left fun _ _ => rfl
  rw [hnames]
  exact SettingsSection.all_distinct.1

theorem parse_text (s : Settings) : Toml.parse s.text = some (Toml.tree s.sections) :=
  Toml.parse_writeSections (fit_sections s) (nodup_sections s)

theorem ofText_of_parse {text : String} {entries : Entries} {t : Settings}
    (hparse : Toml.parse text = some entries) (hentries : ofEntries? entries = some t) :
    ofText text = t.checked := by
  unfold ofText
  rw [hparse]
  simp only
  rw [hentries]

/-- Settings are read as those with each number of single precision as it comes back. -/
theorem ofText_text (s : Settings) : ofText s.text = s.reread.checked :=
  ofText_of_parse (parse_text s) (ofEntries?_tree s)

/-- The numbers of single precision in settings. -/
def singles (s : Settings) : List Float32 :=
  s.sections.flatMap fun part => part.entries.filterMap fun
    | (_, .single x) => some x
    | _ => none

theorem singles_eq (s : Settings) :
    s.singles =
      [s.tracker.defaultRadius, s.tracker.minConfidence, s.estimator.positionNoise,
        s.estimator.yawNoise, s.aim.initialBulletSpeed, s.aim.initialProcessingTime,
        s.aim.speedAlpha, s.aim.latencyAlpha, s.aim.actuationLatency, s.aim.convergenceThreshold,
        s.aim.gravity, s.aim.chaseDistance, s.aim.fireYawTolerance, s.aim.firePitchTolerance,
        s.gimbal.pitchMin, s.gimbal.pitchMax, s.gimbal.yawMin, s.gimbal.yawMax,
        s.gimbal.safetyMargin] := by
  rcases s with ⟨pipeline, tracker, ⟨period, count, seed, position, yaw⟩, aim, gimbal, serial⟩
  cases seed <;> rfl

/-- Settings come back where no number in them slips. -/
theorem reread_eq_self_iff (s : Settings) : s.reread = s ↔ ∀ x ∈ s.singles, ¬ x.Slips := by
  rw [singles_eq]
  -- Only the singles are read back through a double; every other field reads back as written.
  rcases s with ⟨pipeline, tracker, estimator, aim, gimbal, serial⟩
  rcases tracker with ⟨ttl, radius, confidence⟩
  rcases estimator with ⟨period, count, seed, position, yaw⟩
  rcases aim with ⟨speed, processing, speedAlpha, latencyAlpha, latency, threshold, iterations,
    gravity, chase, yawTolerance, pitchTolerance⟩
  rcases gimbal with ⟨pitchMin, pitchMax, yawMin, yawMax, margin, limited⟩
  simp only [reread, Settings.mk.injEq, TrackerSettings.mk.injEq, EstimatorSettings.mk.injEq,
    AimSettings.mk.injEq, GimbalLimits.mk.injEq, Float32.reread_eq_self_iff, List.forall_mem_cons,
    List.not_mem_nil, false_implies, implies_true, true_and, and_true, and_assoc]

theorem checked_eq_ok_iff {s t : Settings} :
    s.checked = .ok t ↔ s.validate = .ok () ∧ s = t := by
  unfold checked
  cases s.validate with
  | error e =>
      refine ⟨fun h => ?_, fun h => ?_⟩
      · cases h
      · cases h.1
  | ok u =>
      refine ⟨fun h => ⟨rfl, Except.ok.inj h⟩, fun h => ?_⟩
      rw [h.2]
      rfl

/-- Valid settings come back from their text exactly where no number in them slips. -/
theorem text_reads_back_iff {s : Settings} (h : s.validate = .ok ()) :
    ofText s.text = .ok s ↔ ∀ x ∈ s.singles, ¬ x.Slips := by
  rw [ofText_text, checked_eq_ok_iff, ← reread_eq_self_iff]
  -- The settings that are read pass the check where they are the ones that were written.
  refine ⟨And.right, fun heq => ⟨?_, heq⟩⟩
  rw [heq]
  exact h

/-- The defaults with a seed, a limited yaw and a device whose name needs escapes. -/
def seeded : Settings :=
  { (default : Settings) with
    estimator.seed := some 42
    gimbal.yawLimited := true
    serial.device := "/dev/tty\"\x07'" }

/-- A seed and a name with quotes come back. -/
theorem text_reads_back_seeded :
    seeded.validate = .ok () ∧ (∀ x ∈ seeded.singles, ¬ x.Slips) ∧
      ofText seeded.text = .ok seeded := by
  have hvalid : seeded.validate = .ok () := by decide +kernel
  have hsingles : ∀ x ∈ seeded.singles, ¬ x.Slips := by decide +kernel
  exact ⟨hvalid, hsingles, (text_reads_back_iff hvalid).mpr hsingles⟩

/-- The defaults with a gravitational acceleration that slips. -/
def slipping : Settings :=
  { (default : Settings) with aim.gravity := .ofBits 0x15AE43FD }

/-- A number that slips comes back as the next one. -/
theorem text_not_read_back :
    slipping.validate = .ok () ∧
      ofText slipping.text = .ok { slipping with aim.gravity := .ofBits 0x15AE43FE } ∧
      ofText slipping.text ≠ .ok slipping := by
  have hread : ofText slipping.text =
      .ok { slipping with aim.gravity := .ofBits 0x15AE43FE } := by
    rw [ofText_text]
    decide +kernel
  refine ⟨by decide +kernel, hread, ?_⟩
  rw [hread]
  decide +kernel

end Settings

end FireControl
