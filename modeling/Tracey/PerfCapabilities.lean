import Tracey.HeaderLines

/-!
# What perf and the kernel can do

`perf_capabilities.cpp`. What the program finds out about the system is an
argument: whether there is a device for Intel PT, whether the user is root, and
the text of `/proc/version`.

A printed version is read back, and a newer kernel lacks nothing that an older
one has.
-/

namespace Tracey

open Numerals TextSearch

/-- Detected kernel version. Without a version that can be read it is 0.0, which
is older than any that matters. -/
structure KernelVersion where
  major : Int := 0
  minor : Int := 0
deriving DecidableEq, Repr

/-- Detected perf and kernel capabilities. The first two come from the device
and from the user, the others from the kernel's version. -/
structure PerfCapabilities where
  hasIntelPt : Bool := false
  hasKernelTracing : Bool := false
  kernelVersion : KernelVersion := {}
  snapshotOnExit : Bool := false
  ctlfd : Bool := false
  dlfilter : Bool := false
  kcore : Bool := false
deriving DecidableEq, Repr

namespace KernelVersion

/-- What `std::from_chars` reads into an `int`, and what follows it; nothing if
there is no number or it does not fit. -/
def readInt (s : Text) : Option (Int × Text) :=
  let negative := s.head? = some (byte '-')
  let digits := if negative then s.drop 1 else s
  let number := value 10 (digits.takeWhile (isDigit 10))
  if digits.takeWhile (isDigit 10) = [] ∨ number > (if negative then 2 ^ 31 else 2 ^ 31 - 1) then none
  else some (if negative then -number else number, digits.dropWhile (isDigit 10))

/-- The version behind the first "Linux version ". A minor number that is
missing counts as 0, and so does a number that does not fit. -/
def parse (versionStr : Text) : KernelVersion :=
  match find (text "Linux version ") versionStr with
  | none => {}
  | some pos =>
    match readInt (versionStr.drop (pos + 14)) with
    | none => {}
    | some (major, rest) =>
      if rest.head? = some (byte '.') then
        match readInt (rest.drop 1) with
        | none => { major }
        | some (minor, _) => { major, minor }
      else { major }

/-- The lambda in `detect_capabilities`. A greater major number decides,
whatever the minor one is. -/
def atLeast (v : KernelVersion) (major minor : Int) : Bool :=
  v.major > major || (v.major == major && v.minor ≥ minor)

end KernelVersion

/-- What the program can find out about the system it runs on: the device of
Intel PT, the user, and the version file if it can be opened. -/
structure SystemFacts where
  intelPtDevice : Bool
  effectiveUserId : UInt32
  procVersion : Option Text

/-- Detect perf and kernel capabilities; of the version file the first line is
read. -/
def detectCapabilities (facts : SystemFacts) : PerfCapabilities :=
  let caps : PerfCapabilities :=
    { hasIntelPt := facts.intelPtDevice, hasKernelTracing := facts.effectiveUserId = 0 }
  match facts.procVersion with
  | none => caps
  | some contents =>
    let kv := KernelVersion.parse (contents.takeWhile (fun c => c ≠ byte '\n'))
    { caps with
      kernelVersion := kv
      snapshotOnExit := kv.atLeast 5 4
      kcore := kv.atLeast 5 5
      ctlfd := kv.atLeast 5 10
      dlfilter := kv.atLeast 5 14 }

namespace KernelVersion

/-- A printed number is read, and what follows it is left. It has to fit the
`int` of the source. -/
theorem readInt_decimal {number : Nat} (fits : number < 2 ^ 31) {rest : Text}
    (stops : ∀ c ∈ rest.head?, isDigit 10 c = false) :
    readInt (decimal number ++ rest) = some ((number : Int), rest) := by
  obtain ⟨c, more, whole, different⟩ := numeral_head (P := fun c => c ≠ byte '-') 10 (by decide)
    (by decide) (by decide) number rest
  have unsigned : (decimal number ++ rest).head? ≠ some (byte '-') := by
    rw [decimal, whole]
    exact fun same => different (Option.some.inj same)
  obtain ⟨taken, dropped⟩ :=
    takeWhile_digits (numeral_isDigit (by decide) (by decide) number) rest stops
  have denoted : value 10 (decimal number) = number := value_numeral (by decide) (by decide) _
  have nonempty : decimal number ≠ [] := numeral_ne_nil 10 number
  have small : ¬ number > 2 ^ 31 - 1 := by omega
  rw [← decimal] at taken dropped
  simp only [readInt, unsigned, if_false, taken, dropped, denoted, nonempty, small, or_false]

/-- The order of versions: by major, then by minor number. Versions that are
equal are not after each other. -/
def NotAfter (v v' : KernelVersion) : Prop :=
  v.major < v'.major ∨ (v.major = v'.major ∧ v.minor ≤ v'.minor)

/-- The comparison of the code is that of versions: the major number decides,
and the minor one where it does not. -/
theorem atLeast_iff (v : KernelVersion) (major minor : Int) :
    v.atLeast major minor = true ↔ NotAfter ⟨major, minor⟩ v := by
  simp only [atLeast, NotAfter, Bool.or_eq_true, Bool.and_eq_true, decide_eq_true_eq,
    beq_iff_eq]
  constructor
  · rintro (newer | ⟨same, later⟩)
    · exact .inl newer
    · exact .inr ⟨same.symm, later⟩
  · rintro (newer | ⟨same, later⟩)
    · exact .inl newer
    · exact .inr ⟨same.symm, later⟩

/-- Versions are ordered. Each version can so be compared through one that lies
between. -/
theorem NotAfter.trans {first second third : KernelVersion} (begun : NotAfter first second)
    (continued : NotAfter second third) : NotAfter first third := by
  unfold NotAfter at *
  omega

/-- The text of a version file: something in front of the version, the version
itself, and what follows it. -/
structure Banner where
  before : Text
  major : Nat
  minor : Nat
  after : Text
  first : ¬ text "Linux version " <:+: before
  majorFits : major < 2 ^ 31
  minorFits : minor < 2 ^ 31
  stops : ∀ c ∈ after.head?, isDigit 10 c = false

namespace Banner

/-- The text of the version file, version and all. The line may begin with
anything that does not hold the words themselves. -/
def text (b : Banner) : Text :=
  b.before ++ (Tracey.text "Linux version " ++ (decimal b.major ++ (Tracey.text "." ++
    (decimal b.minor ++ b.after))))

/-- The version in the text. -/
def version (b : Banner) : KernelVersion := ⟨b.major, b.minor⟩

end Banner

/-- The printed version is read back, whatever stands around it. What follows
must not go on with digits. -/
theorem parse_banner (b : Banner) : parse b.text = b.version := by
  have once : byte 'L' ∉ text "inux version " := by decide
  have found : find (text "Linux version ") b.text = some b.before.length :=
    find_first once b.first _
  have behind : b.text.drop (b.before.length + 14) =
      decimal b.major ++ (text "." ++ (decimal b.minor ++ b.after)) := by
    rw [← List.drop_drop, Banner.text, List.drop_left]
    rfl
  have dot : ∀ rest, (text "." ++ rest).head? = some (byte '.') ∧
      (text "." ++ rest).drop 1 = rest := fun _ => ⟨rfl, rfl⟩
  have point : ∀ c ∈ (text "." ++ (decimal b.minor ++ b.after)).head?, isDigit 10 c = false :=
    PerfScriptParser.head_stops (by decide)
  have major := readInt_decimal b.majorFits point
  have minor := readInt_decimal b.minorFits b.stops
  simp only [parse, found, behind, major, dot, if_true, minor]
  rfl

end KernelVersion

open KernelVersion

/-- The first line of the version file is this one. Further lines may be there. -/
def SystemFacts.Shows (facts : SystemFacts) (b : Banner) : Prop :=
  ∃ contents, facts.procVersion = some contents ∧
    contents.takeWhile (fun c => c ≠ byte '\n') = b.text

namespace PerfCapabilities

/-- What a kernel of this version can do. Each capability has a version from
which on it is there. -/
structure Versioned (caps : PerfCapabilities) (v : KernelVersion) : Prop where
  kernelVersion : caps.kernelVersion = v
  snapshotOnExit : caps.snapshotOnExit = true ↔ NotAfter ⟨5, 4⟩ v
  kcore : caps.kcore = true ↔ NotAfter ⟨5, 5⟩ v
  ctlfd : caps.ctlfd = true ↔ NotAfter ⟨5, 10⟩ v
  dlfilter : caps.dlfilter = true ↔ NotAfter ⟨5, 14⟩ v

/-- Whatever of the kernel's capabilities is there is there in the other as
well. -/
structure Within (caps caps' : PerfCapabilities) : Prop where
  snapshotOnExit : caps.snapshotOnExit = true → caps'.snapshotOnExit = true
  kcore : caps.kcore = true → caps'.kcore = true
  ctlfd : caps.ctlfd = true → caps'.ctlfd = true
  dlfilter : caps.dlfilter = true → caps'.dlfilter = true

end PerfCapabilities

/-- What is detected on a machine with this version is what a kernel of this
version can do. -/
theorem detectCapabilities_versioned {facts : SystemFacts} {b : Banner} (shows : facts.Shows b) :
    (detectCapabilities facts).Versioned b.version := by
  obtain ⟨contents, file, line⟩ := shows
  have parsed : KernelVersion.parse (contents.takeWhile (fun c => c ≠ byte '\n')) = b.version := by
    rw [line, parse_banner]
  constructor
  · simp only [detectCapabilities, file, parsed]
  all_goals
    simp only [detectCapabilities, file, parsed]
    exact atLeast_iff b.version _ _

/-- The version that the system prints is the one that is detected, and decides
about every capability; a kernel that is not older can do all that an older one
can. -/
theorem capabilities_monotone {facts facts' : SystemFacts} {b b' : Banner} (shows : facts.Shows b)
    (shows' : facts'.Shows b') :
    (detectCapabilities facts).Versioned b.version ∧
      (NotAfter b.version b'.version → (detectCapabilities facts).Within (detectCapabilities facts')) := by
  have versioned := detectCapabilities_versioned shows
  have versioned' := detectCapabilities_versioned shows'
  refine ⟨versioned, fun newer => ?_⟩
  constructor
  · rw [versioned.snapshotOnExit, versioned'.snapshotOnExit]
    exact fun reached => reached.trans newer
  · rw [versioned.kcore, versioned'.kcore]
    exact fun reached => reached.trans newer
  · rw [versioned.ctlfd, versioned'.ctlfd]
    exact fun reached => reached.trans newer
  · rw [versioned.dlfilter, versioned'.dlfilter]
    exact fun reached => reached.trans newer

/-- The banner of the tests, and that of a kernel whose minor number has one
digit. -/
def ubuntuBanner (major minor : Nat) (majorFits : major < 2 ^ 31) (minorFits : minor < 2 ^ 31) :
    Banner where
  before := []
  major
  minor
  after := text ".0-42-generic (buildd@lgw01-amd64-038)"
  first := by decide
  majorFits
  minorFits
  stops := PerfScriptParser.head_stops (by decide)

/-- The numbers of a version are compared as numbers: 5.10 is newer than 5.4. As
texts they would be the other way round. -/
theorem capabilities_monotone_ubuntu :
    let facts (minor : Nat) (fits : minor < 2 ^ 31) : SystemFacts :=
      ⟨true, 0, some ((ubuntuBanner 5 minor (by decide) fits).text ++ text "\n")⟩
    (detectCapabilities (facts 4 (by decide))).Versioned ⟨5, 4⟩ ∧
      (NotAfter ⟨5, 4⟩ ⟨5, 10⟩ → (detectCapabilities (facts 4 (by decide))).Within
        (detectCapabilities (facts 10 (by decide)))) :=
  @capabilities_monotone _ _ (ubuntuBanner 5 4 (by decide) (by decide))
    (ubuntuBanner 5 10 (by decide) (by decide)) ⟨_, rfl, by decide⟩ ⟨_, rfl, by decide⟩

end Tracey
