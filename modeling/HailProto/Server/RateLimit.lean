import HailProto.Core.OrderedMap

/-!
# Rate limits in fixed windows (`http/rate-limit.ts`)

A limiter counts the calls of every key in windows of a minute. It stores at most
`maximumBuckets` keys: a new key takes the place of the one that was inserted first, whose next
call then opens a window before the last one has ended.
-/

namespace HailProto.Server.RateLimit

structure Bucket where
  started : ℤ
  count : ℕ
  deriving DecidableEq

/-- The `buckets` of a `FixedWindowRateLimit`, a `Map`. -/
abbrev FixedWindowRateLimit := OrderedMap String Bucket

/-- The bucket that a call counts in, and the map after a new window was opened. -/
def openBucket (maximumBuckets : ℕ) (buckets : FixedWindowRateLimit) (key : String) (now : ℤ) :
    FixedWindowRateLimit × Bucket :=
  match buckets.get key with
  | some bucket => if now - bucket.started ≥ 60000 then (buckets, ⟨now, 0⟩) else (buckets, bucket)
  | none =>
    -- `keys().next().value` is undefined in an empty map, and nothing is deleted.
    (if buckets.size ≥ maximumBuckets then buckets.dropOldest else buckets, ⟨now, 0⟩)

/-- `take(key,ceiling,now)`: `null`, or the seconds to wait. -/
def take (maximumBuckets : ℕ) (buckets : FixedWindowRateLimit) (key : String) (ceiling : ℕ)
    (now : ℤ) : Option ℤ × FixedWindowRateLimit :=
  let (opened, found) := openBucket maximumBuckets buckets key now
  let bucket := { found with count := found.count + 1 }
  (if bucket.count ≤ ceiling then none
    else some (max 1 ((60000 - (now - bucket.started) + 999) / 1000)),
    opened.set key bucket)

/-- A call of `take`. -/
structure Call where
  key : String
  now : ℤ

section Runs

variable (maximumBuckets : ℕ) (ceiling : String → ℕ)

/-- The buckets after a call, with a fixed ceiling for each key. -/
def step (buckets : FixedWindowRateLimit) (c : Call) : FixedWindowRateLimit :=
  (take maximumBuckets buckets c.key (ceiling c.key) c.now).2

/-- The buckets after calls. -/
def run (buckets : FixedWindowRateLimit) (calls : List Call) : FixedWindowRateLimit :=
  calls.foldl (step maximumBuckets ceiling) buckets

/-- The calls, each with the buckets that it meets. -/
def trace (buckets : FixedWindowRateLimit) : List Call → List (FixedWindowRateLimit × Call)
  | [] => []
  | c :: calls => (buckets, c) :: trace (step maximumBuckets ceiling buckets c) calls

/-- The call returns `null` for the key, before a time. -/
def Admits (key : String) (deadline : ℤ) (e : FixedWindowRateLimit × Call) : Prop :=
  e.2.key = key ∧ e.2.now < deadline ∧
    (take maximumBuckets e.1 e.2.key (ceiling e.2.key) e.2.now).1 = none

/-- The call opens a window for its key. -/
def Opens (e : FixedWindowRateLimit × Call) : Prop :=
  ∀ bucket, e.1.get e.2.key = some bucket → e.2.now - bucket.started ≥ 60000

/-- The call deletes the bucket of a key to make room for its own. -/
def Evicts (key : String) (e : FixedWindowRateLimit × Call) : Prop :=
  e.1.get e.2.key = none ∧ e.1.size ≥ maximumBuckets ∧ e.1.oldest = some key

instance (key : String) (deadline : ℤ) (e : FixedWindowRateLimit × Call) :
    Decidable (Admits maximumBuckets ceiling key deadline e) :=
  inferInstanceAs (Decidable (_ ∧ _))

instance (key : String) (e : FixedWindowRateLimit × Call) :
    Decidable (Evicts maximumBuckets key e) :=
  inferInstanceAs (Decidable (_ ∧ _))

/-- How many of the calls return `null` for the key, before a time. -/
def admitted (key : String) (deadline : ℤ) (buckets : FixedWindowRateLimit) (calls : List Call) :
    ℕ :=
  (trace maximumBuckets ceiling buckets calls).countP
    fun e => decide (Admits maximumBuckets ceiling key deadline e)

/-- How many of the calls evict the bucket of the key. -/
def evictions (key : String) (buckets : FixedWindowRateLimit) (calls : List Call) : ℕ :=
  (trace maximumBuckets ceiling buckets calls).countP
    fun e => decide (Evicts maximumBuckets key e)

end Runs

/-- Times do not decrease. -/
def Ordered (calls : List Call) : Prop := calls.Pairwise fun c d => c.now ≤ d.now

instance (calls : List Call) : Decidable (Ordered calls) :=
  inferInstanceAs (Decidable (calls.Pairwise _))

variable {maximumBuckets : ℕ} {ceiling : String → ℕ} {buckets : FixedWindowRateLimit}
  {key other : String} {now deadline : ℤ} {c : Call} {calls : List Call}

@[simp] theorem admitted_cons :
    admitted maximumBuckets ceiling key deadline buckets (c :: calls) =
      admitted maximumBuckets ceiling key deadline (step maximumBuckets ceiling buckets c) calls +
        if Admits maximumBuckets ceiling key deadline (buckets, c) then 1 else 0 := by
  simp [admitted, trace, List.countP_cons]

@[simp] theorem evictions_cons :
    evictions maximumBuckets ceiling key buckets (c :: calls) =
      evictions maximumBuckets ceiling key (step maximumBuckets ceiling buckets c) calls +
        if Evicts maximumBuckets key (buckets, c) then 1 else 0 := by
  simp [evictions, trace, List.countP_cons]

/-- What a call writes for its key. -/
theorem step_eq : step maximumBuckets ceiling buckets c =
    (openBucket maximumBuckets buckets c.key c.now).1.set c.key
      ⟨(openBucket maximumBuckets buckets c.key c.now).2.started,
        (openBucket maximumBuckets buckets c.key c.now).2.count + 1⟩ := rfl

theorem take_eq_none : (take maximumBuckets buckets key (ceiling key) now).1 = none ↔
    (openBucket maximumBuckets buckets key now).2.count < ceiling key := by
  by_cases hcount : (openBucket maximumBuckets buckets key now).2.count + 1 ≤ ceiling key
  · simp only [take, if_pos hcount, true_iff]
    omega
  · simp only [take, if_neg hcount, reduceCtorEq, false_iff]
    omega

/-- Opening a bucket leaves the map as it is, or drops its oldest key for a new one. -/
theorem openBucket_fst :
    (openBucket maximumBuckets buckets key now).1 =
      if buckets.get key = none ∧ buckets.size ≥ maximumBuckets then buckets.dropOldest
      else buckets := by
  unfold openBucket
  cases hget : buckets.get key with
  | none =>
    by_cases hfull : buckets.size ≥ maximumBuckets
    · simp [hfull]
    · simp [hfull]
  | some bucket =>
    simp only [reduceCtorEq, false_and, if_false]
    split
    · rfl
    · rfl

/-- No map holds more buckets than the maximum, or than one. -/
theorem size_step (h : buckets.size ≤ max 1 maximumBuckets) :
    (step maximumBuckets ceiling buckets c).size ≤ max 1 maximumBuckets := by
  rw [step_eq, openBucket_fst]
  cases hget : buckets.get c.key with
  | some bucket =>
    rw [if_neg (by simp), OrderedMap.size_set_of_some hget]
    exact h
  | none =>
    by_cases hfull : buckets.size ≥ maximumBuckets
    · have hdropped : buckets.dropOldest.get c.key = none := by
        by_cases holdest : buckets.oldest = some c.key
        · exact OrderedMap.get_dropOldest_self holdest
        · rw [OrderedMap.get_dropOldest holdest, hget]
      rw [if_pos ⟨rfl, hfull⟩, OrderedMap.size_set_of_none hdropped, OrderedMap.size_dropOldest]
      omega
    · rw [if_neg (by simp [hfull]), OrderedMap.size_set_of_none hget]
      omega

theorem size_run (h : buckets.size ≤ max 1 maximumBuckets) :
    (run maximumBuckets ceiling buckets calls).size ≤ max 1 maximumBuckets := by
  induction calls generalizing buckets with
  | nil => exact h
  | cons c calls ih => exact ih (size_step h)

section Windows

variable (maximumBuckets : ℕ) (ceiling : String → ℕ)

/-- How many more calls for a key the buckets let through in its window. -/
def remaining (buckets : FixedWindowRateLimit) (key : String) : ℕ :=
  match buckets.get key with
  | some bucket => ceiling key - bucket.count
  | none => ceiling key

/-- The window of a key does not end before a time. -/
def Current (buckets : FixedWindowRateLimit) (key : String) (deadline : ℤ) : Prop :=
  ∀ bucket, buckets.get key = some bucket → deadline ≤ bucket.started + 60000

/-- The call that opens a window is the first of the calls that its key gets. -/
theorem step_opens (h : Opens (buckets, c)) (huntil : deadline ≤ c.now + 60000) :
    Current (step maximumBuckets ceiling buckets c) c.key deadline ∧
      remaining ceiling (step maximumBuckets ceiling buckets c) c.key +
        (if Admits maximumBuckets ceiling c.key deadline (buckets, c) then 1 else 0) ≤
        ceiling c.key := by
  have hopened : (openBucket maximumBuckets buckets c.key c.now).2 = ⟨c.now, 0⟩ := by
    unfold openBucket
    cases hget : buckets.get c.key with
    | none => rfl
    | some bucket => simp only [if_pos (h bucket hget)]
  have hwritten : (step maximumBuckets ceiling buckets c).get c.key = some ⟨c.now, 1⟩ := by
    rw [step_eq, hopened, OrderedMap.get_set_self]
  constructor
  · intro bucket hbucket
    rw [hwritten] at hbucket
    cases hbucket
    exact huntil
  · have hcount : Admits maximumBuckets ceiling c.key deadline (buckets, c) →
        0 < ceiling c.key := by
      rintro ⟨_, _, hnull⟩
      have hlt := take_eq_none.1 hnull
      rwa [hopened] at hlt
    simp only [remaining, hwritten]
    split
    · rename_i hadmits
      have hpos := hcount hadmits
      omega
    · omega

/-- In its window, a key loses one call for each that is let through. -/
theorem step_counts {bucket : Bucket} (h : Current buckets c.key deadline)
    (hget : buckets.get c.key = some bucket) (hnow : c.now < deadline) :
    Current (step maximumBuckets ceiling buckets c) c.key deadline ∧
      remaining ceiling (step maximumBuckets ceiling buckets c) c.key +
        (if Admits maximumBuckets ceiling c.key deadline (buckets, c) then 1 else 0) ≤
        remaining ceiling buckets c.key := by
  have huntil := h bucket hget
  have hfound : (openBucket maximumBuckets buckets c.key c.now).2 = bucket := by
    have hopen : ¬c.now - bucket.started ≥ 60000 := by omega
    simp only [openBucket, hget, if_neg hopen]
  have hwritten : (step maximumBuckets ceiling buckets c).get c.key =
      some ⟨bucket.started, bucket.count + 1⟩ := by
    rw [step_eq, hfound, OrderedMap.get_set_self]
  constructor
  · intro bucket' hbucket
    rw [hwritten] at hbucket
    cases hbucket
    exact huntil
  · have hcount : Admits maximumBuckets ceiling c.key deadline (buckets, c) →
        bucket.count < ceiling c.key := by
      rintro ⟨_, _, hnull⟩
      have hlt := take_eq_none.1 hnull
      rwa [hfound] at hlt
    simp only [remaining, hwritten, hget]
    split
    · rename_i hadmits
      have hlt := hcount hadmits
      omega
    · omega

/-- A call for another key leaves the bucket of a key, unless it evicts it. -/
theorem step_other (h : Current buckets key deadline) (hne : key ≠ c.key) :
    Current (step maximumBuckets ceiling buckets c) key deadline ∧
      remaining ceiling (step maximumBuckets ceiling buckets c) key ≤
        remaining ceiling buckets key +
          ceiling key * if Evicts maximumBuckets key (buckets, c) then 1 else 0 := by
  have hget : (step maximumBuckets ceiling buckets c).get key =
      (openBucket maximumBuckets buckets c.key c.now).1.get key := by
    rw [step_eq, OrderedMap.get_set_of_ne hne]
  rw [openBucket_fst] at hget
  by_cases hevicts : Evicts maximumBuckets key (buckets, c)
  · obtain ⟨hnew, hfull, holdest⟩ := hevicts
    rw [if_pos ⟨hnew, hfull⟩, OrderedMap.get_dropOldest_self holdest] at hget
    refine ⟨fun bucket hbucket => ?_, ?_⟩
    · rw [hget] at hbucket
      cases hbucket
    · rw [if_pos ⟨hnew, hfull, holdest⟩]
      simp only [remaining, hget]
      omega
  · have hkept : (step maximumBuckets ceiling buckets c).get key = buckets.get key := by
      rw [hget]
      by_cases hfull : buckets.get c.key = none ∧ buckets.size ≥ maximumBuckets
      · rw [if_pos hfull]
        exact OrderedMap.get_dropOldest fun holdest => hevicts ⟨hfull.1, hfull.2, holdest⟩
      · rw [if_neg hfull]
    refine ⟨fun bucket hbucket => h bucket (hkept ▸ hbucket), ?_⟩
    rw [if_neg hevicts]
    simp only [remaining, hkept]
    omega

/-- From a time on, no call is counted that comes before it. -/
theorem admitted_eq_zero (h : ∀ c ∈ calls, deadline ≤ c.now) :
    admitted maximumBuckets ceiling key deadline buckets calls = 0 := by
  induction calls generalizing buckets with
  | nil => rfl
  | cons c calls ih =>
    have hlate : ¬Admits maximumBuckets ceiling key deadline (buckets, c) := by
      rintro ⟨_, hnow, _⟩
      exact absurd (h c List.mem_cons_self) (not_le.2 hnow)
    rw [admitted_cons, if_neg hlate, ih fun d hd => h d (List.mem_cons_of_mem c hd)]

/-- The calls that are let through in a window, and after each eviction in it. -/
theorem admitted_le (hcurrent : Current buckets key deadline) (hordered : Ordered calls)
    (huntil : ∀ c ∈ calls, deadline ≤ c.now + 60000) :
    admitted maximumBuckets ceiling key deadline buckets calls ≤
      remaining ceiling buckets key +
        ceiling key * evictions maximumBuckets ceiling key buckets calls := by
  induction calls generalizing buckets with
  | nil => exact Nat.zero_le _
  | cons c calls ih =>
    obtain ⟨hfirst, hrest⟩ := List.pairwise_cons.1 hordered
    by_cases hlate : deadline ≤ c.now
    · rw [admitted_eq_zero]
      · exact Nat.zero_le _
      · rintro d (_ | ⟨_, hd⟩)
        · exact hlate
        · exact hlate.trans (hfirst d hd)
    · have hstep : Current (step maximumBuckets ceiling buckets c) key deadline ∧
          remaining ceiling (step maximumBuckets ceiling buckets c) key +
            (if Admits maximumBuckets ceiling key deadline (buckets, c) then 1 else 0) ≤
            remaining ceiling buckets key +
              ceiling key * if Evicts maximumBuckets key (buckets, c) then 1 else 0 := by
        by_cases hkey : key = c.key
        · subst hkey
          cases hget : buckets.get c.key with
          | none =>
            have hopens : Opens (buckets, c) := by
              intro bucket hbucket
              rw [hget] at hbucket
              cases hbucket
            have hcalls := step_opens maximumBuckets ceiling hopens
              (huntil c List.mem_cons_self)
            have hall : remaining ceiling buckets c.key = ceiling c.key := by
              simp only [remaining, hget]
            exact ⟨hcalls.1, hcalls.2.trans (by omega)⟩
          | some bucket =>
            have hcalls := step_counts maximumBuckets ceiling
              hcurrent hget (not_le.1 hlate)
            exact ⟨hcalls.1, hcalls.2.trans (Nat.le_add_right _ _)⟩
        · have hother : ¬Admits maximumBuckets ceiling key deadline (buckets, c) := fun hadmits =>
            hkey hadmits.1.symm
          rw [if_neg hother]
          exact step_other maximumBuckets ceiling hcurrent hkey
      have hcalls := ih hstep.1 hrest fun d hd => huntil d (List.mem_cons_of_mem c hd)
      rw [admitted_cons, evictions_cons, Nat.mul_add]
      omega

/-- After a call opens a window for its key, the key gets its ceiling of calls in the minute from
then, and again for each time that a call for another key evicts its bucket in between. At most
`maximumBuckets` buckets are stored, or one. -/
theorem take_bounded (before after : List Call) (opening : Call)
    (hordered : Ordered (before ++ opening :: after))
    (hopens : Opens (run maximumBuckets ceiling ∅ before, opening)) :
    admitted maximumBuckets ceiling opening.key (opening.now + 60000)
        (run maximumBuckets ceiling ∅ before) (opening :: after) ≤
      ceiling opening.key * (evictions maximumBuckets ceiling opening.key
        (run maximumBuckets ceiling ∅ before) (opening :: after) + 1) ∧
    ∀ calls, (run maximumBuckets ceiling ∅ calls).size ≤ max 1 maximumBuckets := by
  constructor
  · obtain ⟨hafter, hrest⟩ := List.pairwise_cons.1 (List.pairwise_append.1 hordered).2.1
    obtain ⟨hcurrent, hfirst⟩ := step_opens maximumBuckets ceiling
      hopens le_rfl
    have hcalls := admitted_le maximumBuckets ceiling hcurrent hrest
      fun c hc => by
        have hlater := hafter c hc
        omega
    rw [admitted_cons, evictions_cons, Nat.mul_add, Nat.mul_add, Nat.mul_one]
    omega
  · intro calls
    exact size_run (Nat.zero_le _)

end Windows

namespace Sample

/-- One call for each of these keys, at one time. -/
def clients (keys : List String) : List Call := keys.map fun key => ⟨key, 0⟩

end Sample

/-- One of three clients is let through before and after the two others. -/
theorem take_bounded_evicted :
    admitted 2 (fun _ => 1) "a" 60000 ∅ (Sample.clients ["a", "b", "c", "a"]) ≤
      1 * (evictions 2 (fun _ => 1) "a" ∅ (Sample.clients ["a", "b", "c", "a"]) + 1) :=
  (take_bounded 2 (fun _ => 1) [] (Sample.clients ["b", "c", "a"]) ⟨"a", 0⟩ (by decide) nofun).1

/-- With room for two keys, the calls of two others let a key through twice in its window. -/
theorem window_reopened : ¬∀ (maximumBuckets : ℕ) (ceiling : String → ℕ) (before after : List Call)
    (opening : Call), Ordered (before ++ opening :: after) →
    Opens (run maximumBuckets ceiling ∅ before, opening) →
    admitted maximumBuckets ceiling opening.key (opening.now + 60000)
      (run maximumBuckets ceiling ∅ before) (opening :: after) ≤ ceiling opening.key ∧
    ∀ calls, (run maximumBuckets ceiling ∅ calls).size ≤ maximumBuckets := by
  intro h
  have hcalls := (h 2 (fun _ => 1) [] (Sample.clients ["b", "c", "a"]) ⟨"a", 0⟩ (by decide) nofun).1
  exact absurd hcalls (by decide)

end HailProto.Server.RateLimit
