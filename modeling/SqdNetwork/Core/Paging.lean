import Mathlib.Data.List.Basic
import SqdNetwork.Core.Outcome

/-!
# Reading a list page by page

A loop that asks for one response after the other and collects what they hold reads a
list from slices of it, if it advances an offset until the total is reached. Another
counts pages in 32 bits until a short one, and may run out of numbers before the list
ends. Loops are run with fuel, and a loop yields a result if some amount of fuel is
enough for it.
-/

namespace SqdNetwork.Core

variable {α β ρ σ : Type}

/-- What a computation gives with enough fuel. -/
def Yields (run : Nat → Option β) (result : β) : Prop := ∃ fuel, run fuel = some result

/-- What a computation that may panic gives with enough fuel. -/
def Returns (run : Nat → Exec (Option β)) (result : β) : Prop :=
  ∃ fuel, run fuel = .ok (some result)

/-- More fuel does not change a result. -/
def Steady (run : Nat → Option β) : Prop :=
  ∀ fuel result, run fuel = some result → run (fuel + 1) = some result

/-- A steady computation keeps its result from the first time it has one. -/
theorem Steady.of_le {run : Nat → Option β} (h : Steady run) {fuel fuel' : Nat} {result : β}
    (hle : fuel ≤ fuel') (hrun : run fuel = some result) : run fuel' = some result := by
  induction hle with
  | refl => exact hrun
  | step _ ih => exact h _ _ ih

/-- A steady computation has one result. -/
theorem Steady.unique {run : Nat → Option β} (h : Steady run) {a b : β} (ha : Yields run a)
    (hb : Yields run b) : a = b := by
  obtain ⟨fuel, ha⟩ := ha
  obtain ⟨fuel', hb⟩ := hb
  have ha' := h.of_le (Nat.le_max_left fuel fuel') ha
  have hb' := h.of_le (Nat.le_max_right fuel fuel') hb
  exact Option.some.inj (ha'.symm.trans hb')

/-- Collect responses until one is the last, moving on after each. -/
def readLoop (fetch : σ → ρ) (last : σ → ρ → Bool) (next : σ → ρ → σ) (collect : ρ → List β) :
    Nat → σ → Option (List β)
  | 0, _ => none
  | fuel + 1, s =>
    let response := fetch s
    if last s response then some (collect response)
    else (readLoop fetch last next collect fuel (next s response)).map (collect response ++ ·)

section Loop

variable {fetch : σ → ρ} {last : σ → ρ → Bool} {next : σ → ρ → σ} {collect : ρ → List β}

theorem readLoop_steady (s : σ) :
    Steady fun fuel => readLoop fetch last next collect fuel s := by
  intro fuel result hrun
  induction fuel generalizing s result with
  | zero => cases hrun
  | succ fuel ih =>
    simp only [readLoop] at hrun ⊢
    split at hrun
    · next hlast => rwa [if_pos hlast]
    · next hlast =>
      obtain ⟨rest, hrest, rfl⟩ := Option.map_eq_some_iff.mp hrun
      have hnext := ih _ rest hrest
      simp only [readLoop] at hnext
      rw [if_neg hlast, hnext, Option.map_some]

/-- The loop collects what remains, if a last response holds all of it, any other leaves the
rest to the next ones, and a measure goes down. -/
theorem readLoop_eq (remains : σ → List β) (measure : σ → Nat)
    (hlast : ∀ s, last s (fetch s) = true → collect (fetch s) = remains s)
    (hmore : ∀ s, last s (fetch s) = false →
      collect (fetch s) ++ remains (next s (fetch s)) = remains s ∧
        measure (next s (fetch s)) < measure s) {fuel : Nat} {s : σ} (hfuel : measure s < fuel) :
    readLoop fetch last next collect fuel s = some (remains s) := by
  induction fuel generalizing s with
  | zero => omega
  | succ fuel ih =>
    rw [readLoop]
    cases hstop : last s (fetch s) with
    | true => rw [if_pos rfl, hlast s hstop]
    | false =>
      obtain ⟨hremains, hless⟩ := hmore s hstop
      rw [if_neg Bool.false_ne_true, ih (by omega), Option.map_some, hremains]

end Loop

/-- Read by offset, until a response is empty or the offset reaches the total. -/
def readOffsets (fetch : Nat → ρ) (len total : ρ → Nat) (collect : ρ → List β) (fuel : Nat) :
    Option (List β) :=
  readLoop fetch (fun offset response => len response = 0 ∨ total response ≤ offset + len response)
    (fun offset response => offset + len response) collect fuel 0

/-- Reading by offset collects everything, if a response is a slice. -/
theorem readOffsets_eq {fetch : Nat → ρ} {len total : ρ → Nat} {collect : ρ → List β}
    {xs : List α} {size : Nat} {each : List α → List β}
    (hlen : ∀ offset, len (fetch offset) = ((xs.drop offset).take size).length)
    (htotal : ∀ offset, total (fetch offset) = xs.length)
    (hcollect : ∀ offset, collect (fetch offset) = each ((xs.drop offset).take size))
    (happend : ∀ xs ys, each (xs ++ ys) = each xs ++ each ys) (hsize : 0 < size) {fuel : Nat}
    (hfuel : xs.length < fuel) : readOffsets fetch len total collect fuel = some (each xs) := by
  have hsize' : ∀ offset, len (fetch offset) = min size (xs.length - offset) := by
    intro offset
    rw [hlen, List.length_take, List.length_drop]
  refine readLoop_eq (fun offset => each (xs.drop offset)) (fun offset => xs.length - offset)
    ?_ ?_ hfuel
  · intro offset hlast
    rw [decide_eq_true_eq, hsize', htotal] at hlast
    rw [hcollect, List.take_of_length_le]
    rw [List.length_drop]
    omega
  · intro offset hmore
    rw [decide_eq_false_iff_not, hsize', htotal] at hmore
    have hfull : len (fetch offset) = size := by
      rw [hsize']
      omega
    constructor
    · rw [hcollect, hfull, ← happend, ← List.drop_drop, List.take_append_drop]
    · rw [hfull]
      omega

/-- What a page and the ones after it hold. -/
theorem page_append {fetch : Nat → List α} {xs : List α} {size : Nat}
    (hfetch : ∀ page, fetch page = (xs.drop (page * size)).take size) (page : Nat) :
    fetch page ++ xs.drop ((page + 1) * size) = xs.drop (page * size) := by
  rw [hfetch, Nat.succ_mul, ← List.drop_drop, List.take_append_drop]

/-- Read by page number, counted by a range over `i32`: the range moves on before the page is
used, and a negative number is no page. -/
def readPagesI32 (profile : Profile) (fetch : Nat → List α) (size : Nat) :
    Nat → Int → Exec (Option (List α))
  | 0, _ => .ok none
  | fuel + 1, page => do
    let next ← Exec.signed 31 profile (page + 1)
    if page < 0 then
      .error (.assertFailed "Unsigned integer can't be created from negative value")
    else
      let items := fetch page.toNat
      if items.length < size then .ok (some items)
      else do
        let rest ← readPagesI32 profile fetch size fuel next
        .ok (rest.map (items ++ ·))

/-- So many pages can be counted; a debug build stops before it would need one more. -/
def pageLimit : Profile → Nat
  | .debug => 2 ^ 31 - 1
  | .release => 2 ^ 31

section Counter

variable {profile : Profile} {fetch : Nat → List α} {xs : List α} {size : Nat}

/-- A page is short exactly if it is the last one. -/
theorem length_page (hfetch : ∀ page, fetch page = (xs.drop (page * size)).take size)
    (hsize : 0 < size) {page : Nat} (hpage : page ≤ xs.length / size) :
    (fetch page).length < size ↔ page = xs.length / size := by
  have hlow : xs.length / size * size ≤ xs.length := Nat.div_mul_le_self _ _
  have hhigh : xs.length < xs.length / size * size + size := Nat.lt_div_mul_add hsize
  rw [hfetch, List.length_take, List.length_drop]
  rcases Nat.eq_or_lt_of_le hpage with rfl | hlt
  · omega
  · have hnext : (page + 1) * size ≤ xs.length / size * size := Nat.mul_le_mul_right size hlt
    rw [Nat.succ_mul] at hnext
    omega

/-- The last page holds the rest of the list. -/
theorem last_page (hfetch : ∀ page, fetch page = (xs.drop (page * size)).take size)
    (hsize : 0 < size) : fetch (xs.length / size) = xs.drop (xs.length / size * size) := by
  have hhigh : xs.length < xs.length / size * size + size := Nat.lt_div_mul_add hsize
  rw [hfetch, List.take_of_length_le]
  rw [List.length_drop]
  omega

/-- The next page number, up to the limit. -/
theorem next_page {page : Nat} (hpage : page < pageLimit profile) :
    ∃ next, Exec.signed 31 profile ((page : Int) + 1) = .ok next ∧
      (page + 1 < 2 ^ 31 → next = ((page + 1 : Nat) : Int)) := by
  by_cases hfits : page + 1 < 2 ^ 31
  · exact ⟨_, Exec.signed_of_fits (by omega) (by omega), fun _ => by norm_cast⟩
  · cases profile with
    | debug =>
      rw [pageLimit] at hpage
      omega
    | release =>
      unfold Exec.signed
      split
      · exact ⟨_, rfl, fun h => absurd h hfits⟩
      · exact ⟨_, rfl, fun h => absurd h hfits⟩

/-- As long as the last page can be counted, the counter reads everything. -/
theorem readPagesI32_eq (hfetch : ∀ page, fetch page = (xs.drop (page * size)).take size)
    (hsize : 0 < size) (hlimit : xs.length / size < pageLimit profile) {fuel page : Nat}
    (hpage : page ≤ xs.length / size) (hfuel : xs.length / size < page + fuel) :
    readPagesI32 profile fetch size fuel page = .ok (some (xs.drop (page * size))) := by
  induction fuel generalizing page with
  | zero => omega
  | succ fuel ih =>
    obtain ⟨next, hnext, hvalue⟩ := next_page (Nat.lt_of_le_of_lt hpage hlimit)
    rw [readPagesI32, hnext, Exec.ok_bind, if_neg (by omega), Int.toNat_natCast]
    have hshort := length_page hfetch hsize hpage
    by_cases hlast : page = xs.length / size
    · rw [if_pos (hshort.mpr hlast), hlast, last_page hfetch hsize]
    · have hbound : page + 1 < 2 ^ 31 := by
        cases profile <;> simp only [pageLimit] at hlimit <;> omega
      rw [if_neg fun h => hlast (hshort.mp h), hvalue hbound, ih (by omega) (by omega)]
      simp only [Exec.ok_bind, Option.map_some, page_append hfetch]

/-- A negative number is no page. -/
theorem readPagesI32_negative {page : Int} (hneg : page < 0) (fuel : Nat) (result : List α) :
    readPagesI32 profile fetch size fuel page ≠ .ok (some result) := by
  intro h
  cases fuel with
  | zero => cases h
  | succ fuel =>
    rw [readPagesI32] at h
    obtain ⟨next, -, h⟩ := Exec.bind_eq_ok.mp h
    rw [if_pos hneg] at h
    cases h

/-- A counter that came to an end counted its last page and has read everything. -/
theorem readPagesI32_ended (hfetch : ∀ page, fetch page = (xs.drop (page * size)).take size)
    (hsize : 0 < size) {fuel page : Nat} {result : List α} (hpage : page ≤ xs.length / size)
    (hcount : page < 2 ^ 31)
    (h : readPagesI32 profile fetch size fuel page = .ok (some result)) :
    xs.length / size < pageLimit profile ∧ result = xs.drop (page * size) := by
  induction fuel generalizing page result with
  | zero => cases h
  | succ fuel ih =>
    rw [readPagesI32] at h
    obtain ⟨next, hnext, h⟩ := Exec.bind_eq_ok.mp h
    have hlimit : page < pageLimit profile := by
      cases profile with
      | release => exact hcount
      | debug =>
        unfold Exec.signed at hnext
        split at hnext
        · rw [pageLimit]
          omega
        · cases hnext
    rw [if_neg (by omega), Int.toNat_natCast] at h
    by_cases hlast : page = xs.length / size
    · rw [if_pos ((length_page hfetch hsize hpage).mpr hlast)] at h
      rw [hlast] at h ⊢
      exact ⟨hlast ▸ hlimit, (Option.some.inj (Except.ok.inj h)).symm.trans
        (last_page hfetch hsize)⟩
    · rw [if_neg fun hshort => hlast ((length_page hfetch hsize hpage).mp hshort)] at h
      obtain ⟨rest, hrest, h⟩ := Exec.bind_eq_ok.mp h
      obtain ⟨rest, rfl, rfl⟩ := Option.map_eq_some_iff.mp (Except.ok.inj h)
      by_cases hfits : page + 1 < 2 ^ 31
      · obtain ⟨next', hnext', hvalue⟩ := next_page hlimit
        obtain rfl := Except.ok.inj (hnext.symm.trans hnext')
        rw [hvalue hfits] at hrest
        obtain ⟨hends, rfl⟩ := ih (by omega) hfits hrest
        exact ⟨hends, page_append hfetch page⟩
      · -- the number after the last one is negative
        have hwraps : page = 2 ^ 31 - 1 := by omega
        have hneg : next < 0 := by
          unfold Exec.signed at hnext
          rw [if_neg (by omega)] at hnext
          split at hnext
          · cases hnext
          · rw [← Except.ok.inj hnext, hwraps]
            decide
        exact absurd hrest (readPagesI32_negative hneg fuel rest)

/-- With pages of size zero the counter never comes to an end. -/
theorem readPagesI32_zero (fuel : Nat) (page : Int) (result : List α) :
    readPagesI32 profile fetch 0 fuel page ≠ .ok (some result) := by
  induction fuel generalizing page result with
  | zero => exact fun h => by cases h
  | succ fuel ih =>
    intro h
    rw [readPagesI32] at h
    obtain ⟨next, -, h⟩ := Exec.bind_eq_ok.mp h
    split at h
    · cases h
    · rw [if_neg (Nat.not_lt_zero _)] at h
      obtain ⟨rest, hrest, h⟩ := Exec.bind_eq_ok.mp h
      obtain ⟨rest, rfl, -⟩ := Option.map_eq_some_iff.mp (Except.ok.inj h)
      exact ih next rest hrest

/-- With enough rounds the counter has read everything from the first page on. -/
theorem readPagesI32_all (hfetch : ∀ page, fetch page = (xs.drop (page * size)).take size)
    (hsize : 0 < size) (hlimit : xs.length / size < pageLimit profile) {fuel : Nat}
    (hfuel : xs.length < fuel) : readPagesI32 profile fetch size fuel 0 = .ok (some xs) := by
  have hle : xs.length / size ≤ xs.length := Nat.div_le_self _ _
  have hread := readPagesI32_eq hfetch hsize hlimit (Nat.zero_le _)
    (show xs.length / size < 0 + fuel by omega)
  rwa [Nat.zero_mul, List.drop_zero] at hread

/-- From the first page on, the counter comes to an end exactly if pages hold something and the
last one can be counted; then it has read everything. -/
theorem readPagesI32_returns_iff
    (hfetch : ∀ page, fetch page = (xs.drop (page * size)).take size) {result : List α} :
    Returns (readPagesI32 profile fetch size · 0) result ↔
      (0 < size ∧ xs.length / size < pageLimit profile) ∧ result = xs := by
  constructor
  · rintro ⟨fuel, h⟩
    have hsize : 0 < size := by
      rcases Nat.eq_zero_or_pos size with rfl | hsize
      · exact absurd h (readPagesI32_zero fuel 0 result)
      · exact hsize
    have hzero : (0 : Nat) < 2 ^ 31 := by decide
    obtain ⟨hlimit, hresult⟩ := readPagesI32_ended hfetch hsize (Nat.zero_le _) hzero h
    rw [Nat.zero_mul, List.drop_zero] at hresult
    exact ⟨⟨hsize, hlimit⟩, hresult⟩
  · rintro ⟨⟨hsize, hlimit⟩, rfl⟩
    exact ⟨_, readPagesI32_all hfetch hsize hlimit (Nat.lt_succ_self _)⟩

end Counter

/-- `slice::chunks`: slices of one size and a last one that may be shorter. A size of zero is
refused. -/
def sliceChunks (size : Nat) (xs : List α) : Exec (List (List α)) :=
  if size = 0 then .error (.assertFailed "chunk size must be non-zero")
  else .ok (go xs)
where
  go (xs : List α) : List (List α) :=
    if xs.length ≤ size ∨ size = 0 then (if xs.isEmpty then [] else [xs])
    else xs.take size :: go (xs.drop size)
  termination_by xs.length
  decreasing_by
    rw [List.length_drop]
    omega

/-- The slices put together are the list. -/
theorem sliceChunks_flatten {size : Nat} (hsize : size ≠ 0) (xs : List α) :
    ∃ pages, sliceChunks size xs = .ok pages ∧ pages.flatten = xs := by
  refine ⟨_, if_neg hsize, ?_⟩
  fun_induction sliceChunks.go size xs with
  | case1 xs hlast hempty => simpa using hempty
  | case2 xs hlast hne => simp
  | case3 xs hmore ih => rw [List.flatten_cons, ih, List.take_append_drop]

end SqdNetwork.Core
