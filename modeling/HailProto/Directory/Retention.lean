import HailProto.Directory.Resolver

/-!
# Retained histories

What is retained is compared with the row that was verified last, not with the row that was retained
last. When every new row is verified later than the rows its DID has, the two are one, and since
containment is transitive each row contains all that were retained before it. A resolution that
is retained behind one that was verified after it is never compared with again.
-/

namespace HailProto.Directory

open Server

section Effects

variable {ω : Type} [DecidableEq ω] {platform : Platform ω}

theorem contains_of_assertNoHistoryRegression {previousBytes : Bytes}
    {current : List (ExportedOp ω)} {u : Unit}
    (h : assertNoHistoryRegression platform previousBytes current = .ok u) :
    ∃ audit, retainedAudit platform previousBytes = .ok audit ∧ Contains audit current := by
  simp only [assertNoHistoryRegression, bind_eq_ok, guard_eq_ok, and_true] at h
  obtain ⟨audit, haudit, hregressed⟩ := h
  exact ⟨audit, haudit, contains_of_not_regressed (Bool.not_eq_true _ ▸ hregressed)⟩

/-- The bundle of an observation holds the audit that was checked. -/
theorem retainedAudit_of_observe {timeoutMs now : Int} {operators : List String}
    {pending : Pending} {readings : List (Reading ω)} {observation : Observation ω}
    (h : observe platform timeoutMs operators pending readings now = .ok observation) :
    retainedAudit platform observation.row.bundleBytes = .ok observation.audit := by
  simp only [observe, bind_eq_ok, guard_eq_ok, Prod.exists] at h
  obtain ⟨reading, checked, _, _, bytes, hencode, hobservation⟩ := h
  cases hobservation
  simp only [retainedAudit, platform.decode_encode _ _ hencode, ok_bind]

/-- A stored row is new under its digest and comes last, or it was retained already. -/
theorem storePublicResolution_ok {rows rows' : List PublicResolutionRow}
    {row : PublicResolutionRow} (h : storePublicResolution rows row = .ok rows') :
    row ∉ rows ∧ rows' = rows ++ [row] ∨ rows' = rows := by
  unfold storePublicResolution at h
  split at h
  · rename_i hnone
    cases h
    rw [List.find?_eq_none] at hnone
    exact .inl ⟨fun hmem => hnone row hmem (by simp), rfl⟩
  · simp only [guard_eq_ok, Except.ok.injEq] at h
    exact .inr h.2.symm

end Effects

section Orders

variable {ω : Type} (platform : Platform ω)

/-- The later row's audit has every entry of the earlier row's. -/
def Covers (earlier later : PublicResolutionRow) : Prop :=
  ∃ a b, retainedAudit platform earlier.bundleBytes = .ok a ∧
    retainedAudit platform later.bundleBytes = .ok b ∧ Contains a b

/-- Each retained row covers the rows of its DID that were retained before it. -/
def HistoryKept (s : Resolutions ω) : Prop :=
  s.rows.Pairwise fun earlier later => earlier.did = later.did → Covers platform earlier later

/-- A row that is not yet retained was verified after every retained row of its DID. -/
def InOrder (s : Resolutions ω) : ResolverEvent ω → Prop
  | .retain position _ _ => ∀ observation, s.observations[position]? = some observation →
      observation.row ∈ s.rows ∨
        ∀ row ∈ s.rows, row.did = observation.row.did → row.verifiedAt < observation.row.verifiedAt
  | _ => True

/-- Rows are retained in the order of their verification, and cover each other in that order. -/
structure Ordered (s : Resolutions ω) : Prop where
  observed : ∀ observation ∈ s.observations,
    retainedAudit platform observation.row.bundleBytes = .ok observation.audit
  increasing : s.rows.Pairwise fun earlier later => earlier.did = later.did →
    earlier.verifiedAt < later.verifiedAt
  covers : ∀ earlier ∈ s.rows, ∀ later ∈ s.rows, earlier.did = later.did →
    earlier.verifiedAt ≤ later.verifiedAt → Covers platform earlier later

variable {platform} {s : Resolutions ω}

theorem Covers.trans {a b c : PublicResolutionRow} (h : Covers platform a b)
    (h' : Covers platform b c) : Covers platform a c := by
  obtain ⟨x, y, hx, hy, hxy⟩ := h
  obtain ⟨y', z, hy', hz, hyz⟩ := h'
  rw [hy, Except.ok.injEq] at hy'
  subst hy'
  exact ⟨x, z, hx, hz, hxy.trans hyz⟩

theorem Ordered.kept (h : Ordered platform s) : HistoryKept platform s := by
  refine h.increasing.imp_of_mem fun {earlier later} hearlier hlater hlt hdid => ?_
  exact h.covers earlier hearlier later hlater hdid (hlt hdid).le

theorem Ordered.append (h : Ordered platform s) {observation : Observation ω}
    (hmem : observation ∈ s.observations)
    (hlater : ∀ row ∈ s.rows, row.did = observation.row.did →
      row.verifiedAt < observation.row.verifiedAt)
    (hcovers : ∀ row ∈ s.rows, row.did = observation.row.did →
      Covers platform row observation.row) :
    Ordered platform { s with rows := s.rows ++ [observation.row] } where
  observed := h.observed
  increasing := by
    refine List.pairwise_append.2 ⟨h.increasing, List.pairwise_singleton _ _, ?_⟩
    intro earlier hearlier later hlast hdid
    obtain rfl := List.mem_singleton.1 hlast
    exact hlater earlier hearlier hdid
  covers := by
    intro earlier hearlier later hlast hdid hle
    rw [List.mem_append, List.mem_singleton] at hearlier hlast
    obtain hearlier | rfl := hearlier
    · obtain hlast | rfl := hlast
      · exact h.covers earlier hearlier later hlast hdid hle
      · exact hcovers earlier hearlier hdid
    · obtain hlast | rfl := hlast
      · exact absurd hle (not_le.2 (hlater later hlast hdid.symm))
      · exact ⟨_, _, h.observed _ hmem, h.observed _ hmem, .refl _⟩

end Orders

section Runs

variable {ω : Type} [DecidableEq ω] {platform : Platform ω} {s t : Resolutions ω}

/-- A row that passes the comparison with the latest row of its DID covers all of them. -/
theorem Ordered.covers_new (h : Ordered platform s) {observation : Observation ω}
    (hmem : observation ∈ s.observations) {latest : Option PublicResolutionRow} {u : Unit}
    (hlatest : IsLatest s.rows observation.row.did latest)
    (hcontinues : assertContinues platform (latest.map PublicResolutionRow.bundleBytes)
      observation.audit = .ok u) :
    ∀ row ∈ s.rows, row.did = observation.row.did → Covers platform row observation.row := by
  intro row hrow hdid
  cases latest with
  | none => exact absurd hdid (hlatest row hrow)
  | some last =>
    obtain ⟨hlast, hlastdid, hmax⟩ := hlatest
    obtain ⟨audit, haudit, hcontains⟩ := contains_of_assertNoHistoryRegression hcontinues
    have hfirst : Covers platform row last :=
      h.covers row hrow last hlast (hdid.trans hlastdid.symm) (hmax row hrow hdid)
    exact hfirst.trans ⟨audit, _, haudit, h.observed _ hmem, hcontains⟩

theorem Ordered.step (h : Ordered platform s) {e : ResolverEvent ω} (hallowed : InOrder s e)
    (hstep : resolverStep platform s e = some t) : Ordered platform t := by
  cases e with
  | start did now latest =>
    simp only [resolverStep, Option.ite_none_right_eq_some, Option.some.injEq] at hstep
    obtain ⟨_, rfl⟩ := hstep
    exact ⟨h.observed, h.increasing, h.covers⟩
  | finish position timeoutMs operators readings now =>
    simp only [resolverStep, Option.bind_eq_bind, Option.bind_eq_some_iff, toOption_eq_some,
      Option.some.injEq] at hstep
    obtain ⟨pending, _, observation, hobserve, rfl⟩ := hstep
    refine ⟨fun o ho => ?_, h.increasing, h.covers⟩
    rw [List.mem_append, List.mem_singleton] at ho
    obtain ho | rfl := ho
    · exact h.observed o ho
    · exact retainedAudit_of_observe hobserve
  | retain position now latest =>
    simp only [resolverStep, Option.bind_eq_bind, Option.bind_eq_some_iff,
      Option.ite_none_right_eq_some, toOption_eq_some, Option.some.injEq, retain, guard_eq_ok,
      bind_eq_ok] at hstep
    obtain ⟨observation, hget, hlatest, rows, ⟨_, u, hcontinues, hstore⟩, rfl⟩ := hstep
    have hmem : observation ∈ s.observations := List.mem_of_getElem? hget
    obtain ⟨hnew, rfl⟩ | rfl := storePublicResolution_ok hstore
    · have hlater := (hallowed observation hget).resolve_left hnew
      exact h.append hmem hlater (h.covers_new hmem hlatest hcontinues)
    · exact h

end Runs

namespace Sample

/-- The DID of the sample. -/
def did : Did := "did:plc:aaaaaaaaaaaaaaaaaaaaaaaa"

/-- Two operations of the sample, each under its CID. -/
def genesis : ExportedOp String := ⟨did, "bafyreigenesis", "genesis", false, "2026-01-01T00:00:00Z"⟩
def update : ExportedOp String := ⟨did, "bafyreiupdate", "update", false, "2026-01-02T00:00:00Z"⟩

def directory : String := "https://plc.directory"

/-- The bundle of a resolution that took a second. -/
def bundle (verifiedAt : Int) (audit : List (ExportedOp String)) : Bundle String where
  did := did
  operationCid := (audit.getLast?.map ExportedOp.cid).getD ""
  readStartedAt := verifiedAt - 1000
  verifiedAt := verifiedAt
  providerOperators := ["provider"]
  witnesses := [⟨directory, "plc-directory", audit⟩]

/-- The bundles of the sample; the first was read from a reader that is up to date, the other two
from one that lags. -/
def bundles : List (Bundle String) :=
  [bundle 10000 [genesis, update], bundle 12000 [genesis], bundle 14000 [genesis]]

/-- A codec for these bundles, each of which is written as its position. -/
def platform : Platform String where
  encodePublicEvidence b := match bundles.findIdx? (· = b) with
    | some i => .ok [UInt8.ofNat i]
    | none => .error (.error "encoded value is too large")
  decodePublicEvidence
    | [i] => match bundles[i.toNat]? with
      | some b => .ok b
      | none => .error (.error "malformed CBOR")
    | _ => .error (.error "malformed CBOR")
  decode_encode b bytes h := by
    split at h
    · rename_i i hi
      cases h
      obtain ⟨hlt, hb, _⟩ := List.findIdx?_eq_some_iff_getElem.1 hi
      have hsmall : i < 3 := hlt
      have hi8 : (UInt8.ofNat i).toNat = i := by
        rw [UInt8.toNat_ofNat']
        omega
      simp only [hi8, List.getElem?_eq_getElem hlt, of_decide_eq_true hb]
    · cases h
  evidenceHash bytes := bytes
  validatePlcAudit _ audit := .ok ⟨audit, (audit.getLast?.map ExportedOp.cid).getD ""⟩
  checkRoles _ _ := .ok ()

def reading (audit : List (ExportedOp String)) : Reading String :=
  ⟨directory, "plc-directory", .ok audit, .ok ()⟩

/-- The rows that the sample retains. -/
def first : PublicResolutionRow := ⟨[0], did, "bafyreiupdate", 10000, [0]⟩
def second : PublicResolutionRow := ⟨[1], did, "bafyreigenesis", 12000, [1]⟩
def third : PublicResolutionRow := ⟨[2], did, "bafyreigenesis", 14000, [2]⟩

def finished (position : Nat) (audit : List (ExportedOp String)) (now : Int) :
    ResolverEvent String :=
  .finish position 15000 ["provider"] [reading audit] now

/-- Two resolutions start before anything is retained. The second, whose reader lags, is verified
after the first and retained before it; a third resolution is compared with the second alone. -/
def events : List (ResolverEvent String) :=
  [.start did 9000 none, .start did 11000 none,
    finished 0 [genesis, update] 10000, finished 1 [genesis] 12000,
    .retain 1 12100 none, .retain 0 12200 (some second),
    .start did 13000 (some second), finished 2 [genesis] 14000, .retain 2 14100 (some second)]

end Sample

end HailProto.Directory
