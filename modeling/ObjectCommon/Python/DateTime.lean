import ObjectCommon.Errors
import ObjectCommon.Library.Gregorian

/-!
# Python datetimes and their timestamp text

* `DateTime` : calendar fields, time of day to the microsecond, and `utcoffset()`, which a naive
  value lacks;
* `DateTime.instant` : microseconds on the time line, independent of the offset;
* `toUtc` : `astimezone(UTC)`, which raises where UTC leaves the years `1..9999` (`instant_toUtc`);
* `strftime`, `strptime` : the timestamp text (`strptime_strftime`), through a template of decimal
  fields and separators (`scan_render`).
-/

namespace ObjectCommon

/-! ## Templates of decimal fields -/

/-- A piece of a text template: a decimal field of fixed width, or a separator. -/
inductive Piece where
  | field (width : Nat)
  | sep (c : Char)

def digitChar (d : Nat) : CodePoint := ⟨48 + d % 10, by omega⟩

def digitOf (c : CodePoint) : Nat := c.val - 48

def padded (w n : Nat) : Str := (Gregorian.digits w n).map digitChar

/-- The field values of a text that has the shape of the template. -/
def scan : List Piece → Str → Option (List Nat)
  | [], [] => some []
  | [], _ :: _ => none
  | .sep _ :: _, [] => none
  | .sep c :: ps, d :: s => if d = codePoint c then scan ps s else none
  | .field w :: ps, s =>
    if (s.take w).length = w ∧ (s.take w).all isDigit then
      (scan ps (s.drop w)).map (Gregorian.value ((s.take w).map digitOf) :: ·)
    else none

def render : List Piece → List Nat → Str
  | .sep c :: ps, ns => codePoint c :: render ps ns
  | .field w :: ps, n :: ns => padded w n ++ render ps ns
  | _, _ => []

/-- Field values fit the widths of the template. -/
def Fits : List Piece → List Nat → Prop
  | [], [] => True
  | .sep _ :: ps, ns => Fits ps ns
  | .field w :: ps, n :: ns => n < 10 ^ w ∧ Fits ps ns
  | _, _ => False

@[simp] theorem length_padded (w n : Nat) : (padded w n).length = w := by simp [padded]

theorem isDigit_padded (w n : Nat) : (padded w n).all isDigit = true := by
  rw [List.all_eq_true]
  intro c hc
  obtain ⟨d, -, rfl⟩ := List.mem_map.mp hc
  have h0 : '0'.toNat = 48 := rfl
  have h9 : '9'.toNat = 57 := rfl
  rw [isDigit, inRange_eq_true, h0, h9]
  unfold digitChar
  dsimp only
  omega

theorem map_digitOf_padded (w n : Nat) : (padded w n).map digitOf = Gregorian.digits w n := by
  unfold padded
  rw [List.map_map]
  refine (List.map_congr_left fun d hd => ?_).trans (List.map_id _)
  have hd' := Gregorian.digits_lt w n d hd
  simp only [Function.comp_apply, digitOf, digitChar, id_eq]
  omega

theorem scan_render (ps : List Piece) (ns : List Nat) (h : Fits ps ns) :
    scan ps (render ps ns) = some ns := by
  induction ps generalizing ns with
  | nil => cases ns <;> simp_all [Fits, render, scan]
  | cons p ps ih =>
    cases p with
    | sep c =>
      rw [render, scan, if_pos rfl]
      exact ih ns h
    | field w =>
      cases ns with
      | nil => exact h.elim
      | cons n ns =>
        rw [render, scan, List.take_left' (length_padded w n), List.drop_left' (length_padded w n),
          if_pos ⟨length_padded w n, isDigit_padded w n⟩, ih ns h.2, map_digitOf_padded,
          Gregorian.value_digits w n h.1, Option.map_some]

theorem digitChar_digitOf {c : CodePoint} (h : isDigit c = true) : digitChar (digitOf c) = c ∧ digitOf c < 10 := by
  have h0 : '0'.toNat = 48 := rfl
  have h9 : '9'.toNat = 57 := rfl
  rw [isDigit, inRange_eq_true, h0, h9] at h
  unfold digitChar digitOf
  refine ⟨Fin.ext ?_, by omega⟩
  dsimp only
  omega

theorem padded_value {s : Str} (h : s.all isDigit = true) :
    padded s.length (Gregorian.value (s.map digitOf)) = s ∧
      Gregorian.value (s.map digitOf) < 10 ^ s.length := by
  have hc : ∀ c ∈ s, digitChar (digitOf c) = c ∧ digitOf c < 10 :=
    fun c hc => digitChar_digitOf (List.all_eq_true.mp h c hc)
  obtain ⟨hd, hlt⟩ := Gregorian.digits_value (s.map digitOf) (by simpa using fun c h => (hc c h).2)
  rw [List.length_map] at hd hlt
  refine ⟨?_, hlt⟩
  rw [padded, hd, List.map_map]
  exact (List.map_congr_left fun c h => (hc c h).1).trans (List.map_id _)

/-- A text that has the shape of the template is the one its field values render to. -/
theorem render_of_scan {ps : List Piece} {s : Str} {ns : List Nat} (h : scan ps s = some ns) :
    render ps ns = s ∧ Fits ps ns := by
  induction ps generalizing s ns with
  | nil =>
    cases s with
    | nil =>
      cases h
      exact ⟨rfl, trivial⟩
    | cons c s => cases h
  | cons p ps ih =>
    cases p with
    | sep c =>
      cases s with
      | nil => cases h
      | cons d s =>
        simp only [scan] at h
        split at h
        · next hd =>
          obtain ⟨hs, hfit⟩ := ih h
          exact ⟨by rw [render, hs, hd], hfit⟩
        · cases h
    | field w =>
      rw [scan] at h
      split at h
      · next hw =>
        obtain ⟨ns', hns, rfl⟩ := Option.map_eq_some_iff.mp h
        obtain ⟨hs, hfit⟩ := ih hns
        obtain ⟨hp, hlt⟩ := padded_value hw.2
        rw [hw.1] at hp hlt
        exact ⟨by rw [render, hp, hs, List.take_append_drop], hlt, hfit⟩
      · cases h

/-- Text of the shape of an ASCII template is ASCII. -/
theorem ascii_of_scan {ps : List Piece} (hps : ∀ c, Piece.sep c ∈ ps → c.toNat < 0x80) {s : Str} {ns : List Nat}
    (h : scan ps s = some ns) : ∀ c ∈ s, c.val < 0x80 := by
  induction ps generalizing s ns with
  | nil =>
    cases s with
    | nil => simp
    | cons c s => cases h
  | cons p ps ih =>
    have hps' : ∀ c, Piece.sep c ∈ ps → c.toNat < 0x80 := fun c hc => hps c (List.mem_cons_of_mem _ hc)
    cases p with
    | sep d =>
      cases s with
      | nil => cases h
      | cons c s =>
        simp only [scan] at h
        split at h
        · next hc =>
          exact List.forall_mem_cons.mpr ⟨hc ▸ hps d List.mem_cons_self, ih hps' h⟩
        · cases h
    | field w =>
      rw [scan] at h
      split at h
      · next hw =>
        obtain ⟨ns', hns, -⟩ := Option.map_eq_some_iff.mp h
        intro c hc
        rw [← List.take_append_drop w s] at hc
        rcases List.mem_append.mp hc with hc | hc
        · exact lt_of_le_of_lt (inRange_eq_true.mp (List.all_eq_true.mp hw.2 c hc)).2 (by decide)
        · exact ih hps' hns c hc
      · cases h

/-! ## Datetimes -/

/-- Microseconds of a day. -/
def dayMicros : Nat := 86400000000

/-- A `datetime`: its calendar fields and `utcoffset()` in microseconds, `none` for a naive value. -/
structure DateTime where
  date : Gregorian.Date
  hour : Nat
  minute : Nat
  second : Nat
  microsecond : Nat
  utcoffset : Option Int
  date_valid : date.Valid
  time_valid : hour < 24 ∧ minute < 60 ∧ second < 60 ∧ microsecond < 1000000
  offset_valid : ∀ o ∈ utcoffset, -dayMicros < o ∧ o < dayMicros

namespace DateTime

theorem midnight_valid : 0 < 24 ∧ 0 < 60 ∧ 0 < 60 ∧ 0 < 1000000 := by
  decide

theorem utc_valid : ∀ o ∈ some (0 : Int), -dayMicros < o ∧ o < dayMicros := by
  decide

/-- Microseconds of the fields since the day before 0001-01-01. -/
def sinceOrigin (d : DateTime) : Nat :=
  Gregorian.ordinal d.date * dayMicros +
    (((d.hour * 60 + d.minute) * 60 + d.second) * 1000000 + d.microsecond)

/-- The point on the time line of a value with the given offset. -/
def instant (d : DateTime) (offset : Int) : Int := d.sinceOrigin - offset

/-- The microseconds a UTC datetime can denote. -/
def InRange (n : Int) : Prop := dayMicros ≤ n ∧ n < (Gregorian.maxOrdinal + 1) * dayMicros

instance (n : Int) : Decidable (InRange n) := by unfold InRange; infer_instance

/-- The UTC datetime of a point of the supported range. -/
def ofMicros (n : Nat) (h : InRange n) : DateTime where
  date := Gregorian.ofOrdinal (n / dayMicros)
  hour := n % dayMicros / 3600000000
  minute := n % dayMicros / 60000000 % 60
  second := n % dayMicros / 1000000 % 60
  microsecond := n % dayMicros % 1000000
  utcoffset := some 0
  date_valid := by
    unfold InRange dayMicros Gregorian.maxOrdinal at h
    exact Gregorian.ofOrdinal_valid _ (by unfold dayMicros; omega)
      (by unfold dayMicros Gregorian.maxOrdinal; omega)
  time_valid := by unfold dayMicros; omega
  offset_valid := by
    intro o ho
    obtain rfl : 0 = o := by simpa using ho
    decide

/-- `astimezone(UTC)` of a value with the given offset. -/
def toUtc (d : DateTime) (offset : Int) : Py DateTime :=
  if h : InRange (d.instant offset) then
    .ok (ofMicros (d.instant offset).toNat (by
      have h0 : 0 ≤ d.instant offset := le_trans (by unfold dayMicros; omega) h.1
      rwa [Int.toNat_of_nonneg h0]))
  else .error (.builtin .overflowError [.foreign])

/-- `utcoffset()` of an aware value, else `e` -/
def awareOffset (d : DateTime) (e : PyError) : Py Int :=
  match d.utcoffset with
  | none => .error e
  | some offset => .ok offset

theorem awareOffset_eq_ok {d : DateTime} {e : PyError} {offset : Int} :
    d.awareOffset e = .ok offset ↔ d.utcoffset = some offset := by
  unfold awareOffset
  split <;> simp_all

theorem sinceOrigin_ofMicros (n : Nat) (h : InRange n) : (ofMicros n h).sinceOrigin = n := by
  have h1 : 1 ≤ n / dayMicros := by
    unfold InRange dayMicros at h
    unfold dayMicros
    omega
  unfold sinceOrigin ofMicros
  dsimp only
  rw [Gregorian.ordinal_ofOrdinal _ h1]
  unfold dayMicros
  omega

/-- Conversion to UTC keeps the point on the time line. -/
theorem instant_toUtc {d u : DateTime} {offset : Int} (h : d.toUtc offset = .ok u) :
    u.utcoffset = some 0 ∧ (u.sinceOrigin : Int) = d.instant offset := by
  unfold toUtc at h
  split at h
  · next hr =>
    cases h
    refine ⟨rfl, ?_⟩
    have h0 : 0 ≤ d.instant offset := le_trans (by unfold dayMicros; omega) hr.1
    rw [sinceOrigin_ofMicros, Int.toNat_of_nonneg h0]
  · cases h

theorem toUtc_eq_ok_iff {d : DateTime} {offset : Int} :
    (∃ u, d.toUtc offset = .ok u) ↔ InRange (d.instant offset) := by
  unfold toUtc
  split <;> simp_all

/-! ## Timestamp text -/

/-- `%Y-%m-%dT%H:%M:%S.%fZ` with every field at its full width. -/
def template : List Piece :=
  [.field 4, .sep '-', .field 2, .sep '-', .field 2, .sep 'T', .field 2, .sep ':', .field 2, .sep ':',
    .field 2, .sep '.', .field 6, .sep 'Z']

/-- `%Y`: the C library writes a year below 1000 without leading zeros. -/
def yearText (y : Nat) : Str :=
  padded (if y < 10 then 1 else if y < 100 then 2 else if y < 1000 then 3 else 4) y

/-- `strftime("%Y-%m-%dT%H:%M:%S.%fZ")` -/
def strftime (d : DateTime) : Str :=
  yearText d.date.year ++
    render template.tail [d.date.month, d.date.day, d.hour, d.minute, d.second, d.microsecond]

/-- `strptime(s, "%Y-%m-%dT%H:%M:%S.%fZ").replace(tzinfo=UTC)`. A text with a field of another width
is read as malformed: of the texts that reach the parser only a year below 1000 written by
`strftime` has one, and `%Y` takes exactly four digits. -/
def strptime (s : Str) : Py DateTime :=
  match scan template s with
  | some [year, month, day, hour, minute, second, microsecond] =>
    if h : (Gregorian.Date.mk year month day).Valid ∧
        hour < 24 ∧ minute < 60 ∧ second < 60 ∧ microsecond < 1000000 then
      .ok ⟨⟨year, month, day⟩, hour, minute, second, microsecond, some 0, h.1, h.2, by
        intro o ho
        obtain rfl : 0 = o := by simpa using ho
        decide⟩
    else .error (.builtin .valueError [.foreign])
  | _ => .error (.builtin .valueError [.foreign])

theorem daysInMonth_le (y m : Nat) : Gregorian.daysInMonth y m ≤ 31 := by
  unfold Gregorian.daysInMonth Gregorian.monthLengths
  generalize m - 1 = i
  rcases i with _ | _ | _ | _ | _ | _ | _ | _ | _ | _ | _ | _ | i <;> simp
  split <;> decide

/-- A text that is read as a timestamp is ASCII. -/
theorem ascii_of_strptime {s : Str} {d : DateTime} (h : strptime s = .ok d) : ∀ c ∈ s, c.val < 0x80 := by
  have hsep : ∀ c, Piece.sep c ∈ template → c.toNat < 0x80 := by
    intro c hc
    simp only [template, List.mem_cons, Piece.sep.injEq, reduceCtorEq, List.not_mem_nil, or_false, false_or] at hc
    rcases hc with rfl | rfl | rfl | rfl | rfl | rfl | rfl <;> decide
  unfold strptime at h
  split at h
  · next hs => exact ascii_of_scan hsep hs
  · cases h

/-- The timestamp text with four digits for the year. -/
def fullText (d : DateTime) : Str :=
  render template [d.date.year, d.date.month, d.date.day, d.hour, d.minute, d.second, d.microsecond]

theorem strftime_eq_fullText (d : DateTime) (hy : 1000 ≤ d.date.year) : d.strftime = d.fullText := by
  have e : yearText d.date.year = padded 4 d.date.year := by
    unfold yearText
    rw [if_neg (by omega), if_neg (by omega), if_neg (by omega)]
  rw [strftime, e]
  rfl

/-- A text is read as a UTC datetime exactly when it is the text of that datetime. -/
theorem strptime_eq_ok {s : Str} {d : DateTime} :
    strptime s = .ok d ↔ d.utcoffset = some 0 ∧ s = d.fullText := by
  obtain ⟨⟨year, month, day⟩, hour, minute, second, microsecond, utcoffset, hv, ht, ho⟩ := d
  have hfit : Fits template [year, month, day, hour, minute, second, microsecond] := by
    obtain ⟨-, h1, -, h2, -, h3⟩ := hv
    dsimp only at h1 h2 h3
    have := daysInMonth_le year month
    simp only [template, Fits, Nat.reducePow, and_true]
    omega
  unfold strptime fullText
  constructor
  · intro h
    split at h
    · next hs =>
      split at h
      · cases h
        exact ⟨rfl, (render_of_scan hs).1.symm⟩
      · cases h
    · cases h
  · rintro ⟨hd, rfl⟩
    dsimp only at hd
    subst hd
    dsimp only
    rw [scan_render _ _ hfit]
    exact dif_pos ⟨hv, ht⟩

/-- The timestamp text of a UTC datetime reads back as that datetime. -/
theorem strptime_strftime (d : DateTime) (hd : d.utcoffset = some 0) (hy : 1000 ≤ d.date.year) :
    strptime d.strftime = .ok d :=
  strptime_eq_ok.mpr ⟨hd, strftime_eq_fullText d hy⟩

end DateTime

end ObjectCommon
