import Mathlib.Data.List.Count
import HiSysEvent.Def
import HiSysEvent.While

/-!
# The flat scanner of JSON texts

`JsonFlattenParser` splits the text of a JSON object into the pairs of its members, each
a name and the text of a value. It has no grammar : a cursor runs over the text, and the
end of a string, of a bracket and of a number are each found by a rule of their own.

The functions share the cursor and move it past closing characters without another look
at the end of the text. They are programs on the parser (`Scan`), with a log of the bytes
read and of the places of the cursor. Every loop has more rounds than bytes if `fuel`
exceeds the length of the text.

Each function does what a function on the rest of the text does (`scanKey`, `scanNumer`,
`scanString`, `scanBrackets`, `scanValue`, `scan`), and keeps `Fine` : the cursor never goes
back, and no read or move is past the end (`ends_parse`). So `parse` ends on every text
(`parse_total`).
-/

namespace HiSysEvent

open While

/-! ## Definitions -/

/-- A read of `json[i]`, or a new place of the cursor. -/
inductive Access
  | read (i : ℕ)
  | move (i : ℕ)

/-- A key and a value. -/
abbrev KV : Type := Bytes × Bytes

/-- The pairs read, the position and the accesses to the text. -/
structure JsonFlattenParser where
  kvList : List KV := []
  curPos : ℕ := 0
  log : List Access := []

namespace JsonFlattenParser

abbrev bracketFlag : ℕ := 3
abbrev numberFlag : ℕ := 1
abbrev stringFlag : ℕ := 2

/-- The table `Initialize` fills. -/
def charFilter (c : UInt8) : ℕ :=
  if 48 ≤ c ∧ c ≤ 57 then numberFlag
  else if c = 45 ∨ c = 43 ∨ c = 46 then numberFlag
  else if c = 34 then stringFlag
  else if c = 123 ∨ c = 91 then bracketFlag
  else 0

/-- A program on the parser. -/
abbrev Scan (α : Type) := Program JsonFlattenParser α

/-- `json[i]`. A NUL follows the last byte. -/
def charAt (json : Bytes) (i : ℕ) : Scan UInt8 := do
  modify fun p => { p with log := p.log ++ [.read i] }
  pure (json.getD i 0)

/-- `json[curPos]`. -/
def cur (json : Bytes) : Scan UInt8 := do
  charAt json (← get).curPos

/-- `++curPos`. -/
def advance : Scan Unit :=
  modify fun p => { p with curPos := p.curPos + 1, log := p.log ++ [.move (p.curPos + 1)] }

/-- `txt.push_back(json[curPos++])`. -/
def push (json txt : Bytes) : Scan Bytes := do
  let c ← cur json
  advance
  pure (txt ++ [c])

/-- `while (curPos < json.length())`. -/
def whileRest {α : Type} (fuel : ℕ) (json : Bytes) (body : α → Scan (Flow α α)) (x : α) :
    Scan α :=
  loop (fun x => do if (← get).curPos < json.length then body x else pure (.done x)) fuel x

/-- `ParseKey`, from the opening quotation mark to behind the closing one. -/
def parseKey (fuel : ℕ) (json : Bytes) : Scan Bytes := do
  advance
  let key ← whileRest fuel json (fun key => do
    if charFilter (← cur json) = stringFlag then pure (.done key)
    else .next <$> push json key) []
  advance
  pure key

/-- `ParseNumer`, while there are characters of a number. -/
def parseNumer (fuel : ℕ) (json : Bytes) : Scan Bytes :=
  whileRest fuel json (fun number => do
    if charFilter (← cur json) ≠ numberFlag then pure (.done number)
    else .next <$> push json number) []

/-- `curPos - 1`, which wraps at zero. -/
def prevPos (curPos : ℕ) : ℕ :=
  if curPos = 0 then 2 ^ 64 - 1 else curPos - 1

/-- The quotation at the cursor is not escaped. -/
def closesString (json : Bytes) : Scan Bool := do
  if charFilter (← cur json) = stringFlag then
    let prev ← charAt json (prevPos (← get).curPos)
    pure (prev != 92)
  else pure false

/-- `ParseString`, with both quotation marks. -/
def parseString (fuel : ℕ) (json : Bytes) : Scan Bytes := do
  let txt ← push json []
  let txt ← whileRest fuel json (fun txt => do
    if ← closesString json then pure (.done txt)
    else .next <$> push json txt) txt
  push json txt

/-- `ParseBrackets`, up to the bracket that closes the first one. -/
def parseBrackets (fuel : ℕ) (json : Bytes) (leftBracket : UInt8) : Scan Bytes := do
  let rightBracket := leftBracket + 2
  let val ← push json []
  let r ← whileRest fuel json (fun (counter, val) => do
    if (← cur json) = leftBracket then
      let val ← push json val
      pure (.next (counter + 1, val))
    else if (← cur json) = rightBracket then
      if counter - 1 = 0 then pure (.done (counter - 1, val))
      else
        let val ← push json val
        pure (.next (counter - 1, val))
    else
      let val ← push json val
      pure (.next (counter, val))) ((1 : ℤ), val)
  push json r.2

/-- `ParseValue`, which skips what starts no value. -/
def parseValue (fuel : ℕ) (json : Bytes) : Scan Bytes :=
  whileRest fuel json (fun value => do
    let flag := charFilter (← cur json)
    if flag = bracketFlag then
      let c ← cur json
      .done <$> parseBrackets fuel json c
    else if flag = numberFlag then .done <$> parseNumer fuel json
    else if flag = stringFlag then .done <$> parseString fuel json
    else
      advance
      pure (.next value)) []

/-- `Parse`. -/
def parse (fuel : ℕ) (json : Bytes) : Scan Unit := do
  modify fun _ => { kvList := [], curPos := 0, log := [] }
  whileRest fuel json (fun _ => do
    if charFilter (← cur json) ≠ stringFlag then
      advance
      pure (.next ())
    else
      let key ← parseKey fuel json
      let val ← parseValue fuel json
      modify fun p => { p with kvList := p.kvList ++ [(key, val)] }
      pure (.next ())) ()

/-- The pairs of `Print`, separated by commas. The handler may change a pair. -/
def printKvs (handler : KV → Bytes × KV) : List KV → Bytes
  | [] => []
  | [kv] => (handler kv).1
  | kv :: kvs => (handler kv).1 ++ [44] ++ printKvs handler kvs

/-- `Print`, with the handler applied to every pair. -/
def print (handler : KV → Bytes × KV) (p : JsonFlattenParser) : Bytes × JsonFlattenParser :=
  ([123] ++ printKvs handler p.kvList ++ [125],
    { p with kvList := p.kvList.map fun kv => (handler kv).2 })

/-! ## The scanner on the rest of the text -/

/-- Take bytes while the state allows the next one. -/
def span {σ : Type} (δ : σ → UInt8 → Option σ) : σ → Bytes → Bytes
  | _, [] => []
  | s, c :: cs =>
    match δ s c with
    | none => []
    | some s' => c :: span δ s' cs

/-- Any byte but a quotation. -/
def keyStep (_ : Unit) (c : UInt8) : Option Unit :=
  if charFilter c = stringFlag then none else some ()

/-- A character of a number. -/
def numerStep (_ : Unit) (c : UInt8) : Option Unit :=
  if charFilter c ≠ numberFlag then none else some ()

/-- The state is the byte before. -/
def stringStep (prev c : UInt8) : Option UInt8 :=
  if charFilter c = stringFlag ∧ prev ≠ 92 then none else some c

/-- The state is the number of open brackets. -/
def bracketStep (l : UInt8) (counter : ℤ) (c : UInt8) : Option ℤ :=
  if c = l then some (counter + 1)
  else if c = l + 2 then if counter - 1 = 0 then none else some (counter - 1)
  else some counter

/-- The key at the begin of a text. -/
def scanKey (rest : Bytes) : Bytes :=
  span keyStep () rest

/-- The number at the begin of a text. -/
def scanNumer (rest : Bytes) : Bytes :=
  span numerStep () rest

/-- What is pushed behind the opening byte, with the byte the loop stopped at. -/
def closed (body rest : Bytes) : Bytes :=
  body ++ [(rest.drop body.length).headD 0]

/-- The string behind its opening quotation mark. -/
def scanString (q : UInt8) (rest : Bytes) : Bytes :=
  q :: closed (span stringStep q rest) rest

/-- The brackets behind the opening one. -/
def scanBrackets (l : UInt8) (rest : Bytes) : Bytes :=
  l :: closed (span (bracketStep l) 1 rest) rest

/-- The value and the number of bytes up to its end. -/
def scanValue : Bytes → Bytes × ℕ
  | [] => ([], 0)
  | c :: cs =>
    if charFilter c = bracketFlag then (scanBrackets c cs, (scanBrackets c cs).length)
    else if charFilter c = numberFlag then (scanNumer (c :: cs), (scanNumer (c :: cs)).length)
    else if charFilter c = stringFlag then (scanString c cs, (scanString c cs).length)
    else ((scanValue cs).1, (scanValue cs).2 + 1)

/-- The bytes behind a key and its two quotations. -/
def afterKey (rest : Bytes) : Bytes :=
  rest.drop ((scanKey rest).length + 1)

/-- The pairs of a text. -/
def scan : Bytes → List KV
  | [] => []
  | c :: cs =>
    if charFilter c ≠ stringFlag then scan cs
    else
      let value := scanValue (afterKey cs)
      (scanKey cs, value.1) :: scan ((afterKey cs).drop value.2)
termination_by bs => bs.length
decreasing_by
  all_goals
    simp only [afterKey, List.length_drop, List.length_cons]
    omega

/-! ## The cursor -/

/-- The places of the cursor in a log. -/
def moves (log : List Access) : List ℕ :=
  log.filterMap fun
    | .read _ => none
    | .move i => some i

/-- No read was past the terminator, and the cursor never went back or past the end. -/
structure Fine (json : Bytes) (p : JsonFlattenParser) : Prop where
  reads : ∀ i, .read i ∈ p.log → i ≤ json.length
  sorted : (moves p.log).Pairwise (· ≤ ·)
  moves_le : ∀ i ∈ moves p.log, i ≤ p.curPos
  curPos_le : p.curPos ≤ json.length + 1

/-- The cursor moved by `n`, and the pairs are as before. -/
structure Moved (json : Bytes) (n : ℕ) (p p' : JsonFlattenParser) : Prop where
  fine : Fine json p'
  curPos : p'.curPos = p.curPos + n
  kvList : p'.kvList = p.kvList

section
variable {json : Bytes} {p p' p'' : JsonFlattenParser} {m n fuel : ℕ} {α : Type}
  {Q : α → JsonFlattenParser → Prop}

theorem Moved.trans (h : Moved json m p p') (h' : Moved json n p' p'') :
    Moved json (m + n) p p'' :=
  ⟨h'.fine, by rw [h'.curPos, h.curPos, Nat.add_assoc], h'.kvList.trans h.kvList⟩

theorem Fine.read (h : Fine json p) {i : ℕ} (hi : i ≤ json.length) :
    Fine json { p with log := p.log ++ [.read i] } := by
  have hmoves : moves (p.log ++ [.read i]) = moves p.log := by simp [moves]
  refine ⟨?_, by rw [hmoves]; exact h.sorted, by rw [hmoves]; exact h.moves_le, h.curPos_le⟩
  intro j hj
  rcases List.mem_append.1 hj with hj | hj
  · exact h.reads j hj
  · cases List.mem_singleton.1 hj
    exact hi

theorem Fine.move (h : Fine json p) (hp : p.curPos ≤ json.length) :
    Fine json { p with curPos := p.curPos + 1, log := p.log ++ [.move (p.curPos + 1)] } := by
  have hmoves : moves (p.log ++ [.move (p.curPos + 1)]) = moves p.log ++ [p.curPos + 1] := by
    simp [moves]
  refine ⟨?_, ?_, ?_, Nat.succ_le_succ hp⟩
  · intro j hj
    rcases List.mem_append.1 hj with hj | hj
    · exact h.reads j hj
    · cases List.mem_singleton.1 hj
  · rw [hmoves, List.pairwise_append]
    refine ⟨h.sorted, List.pairwise_singleton _ _, ?_⟩
    intro i hi j hj
    rw [List.mem_singleton.1 hj]
    exact Nat.le_succ_of_le (h.moves_le i hi)
  · intro i hi
    rw [hmoves, List.mem_append, List.mem_singleton] at hi
    rcases hi with hi | rfl
    · exact Nat.le_succ_of_le (h.moves_le i hi)
    · exact Nat.le_refl _

/-! ### Reads and moves -/

theorem ends_charAt {f : UInt8 → Scan α} {i : ℕ} (h : Fine json p) (hi : i ≤ json.length)
    (hf : ∀ p', Moved json 0 p p' → Ends (f (json.getD i 0)) p' Q) :
    Ends (charAt json i >>= f) p Q :=
  Ends.bind (Ends.bind (Ends.modify (Ends.pure (hf _ ⟨h.read hi, rfl, rfl⟩))))

theorem ends_cur {f : UInt8 → Scan α} (h : Fine json p) (hp : p.curPos ≤ json.length)
    (hf : ∀ p', Moved json 0 p p' → Ends (f (json.getD p.curPos 0)) p' Q) :
    Ends (cur json >>= f) p Q := by
  refine Ends.bind (Ends.bind (Ends.get ?_))
  refine (Ends.bind (Ends.modify (Ends.pure ?_)))
  exact hf _ ⟨h.read hp, rfl, rfl⟩

theorem ends_advance {f : Unit → Scan α} (h : Fine json p) (hp : p.curPos ≤ json.length)
    (hf : ∀ p', Moved json 1 p p' → Ends (f ()) p' Q) : Ends (advance >>= f) p Q :=
  Ends.bind (Ends.modify (hf _ ⟨h.move hp, rfl, rfl⟩))

theorem ends_push (h : Fine json p) (hp : p.curPos ≤ json.length) (txt : Bytes) :
    Ends (push json txt) p fun txt' p' =>
      txt' = txt ++ [json.getD p.curPos 0] ∧ Moved json 1 p p' := by
  refine ends_cur h hp fun p₁ h₁ => ends_advance h₁.fine (by rw [h₁.curPos]; exact hp) ?_
  intro p₂ h₂
  exact Ends.pure ⟨rfl, h₁.trans h₂⟩

/-- A push behind reads only. -/
theorem Moved.ends_push (h : Moved json 0 p p') (hp : p.curPos ≤ json.length) (txt : Bytes) :
    Ends (push json txt) p' fun txt' p'' =>
      txt' = txt ++ [json.getD p.curPos 0] ∧ Moved json 1 p p'' := by
  have hcur : p'.curPos = p.curPos := h.curPos
  refine (JsonFlattenParser.ends_push h.fine (by omega) txt).mono ?_
  rintro txt' p'' ⟨htxt, h'⟩
  exact ⟨hcur ▸ htxt, by simpa using h.trans h'⟩

/-! ### Loops that push -/

theorem length_span_le {σ : Type} (δ : σ → UInt8 → Option σ) : ∀ (s : σ) (bs : Bytes),
    (span δ s bs).length ≤ bs.length
  | _, [] => Nat.le_refl _
  | s, c :: cs => by
    rw [span]
    cases δ s c with
    | none => exact Nat.zero_le _
    | some s' => exact Nat.succ_le_succ (length_span_le δ s' cs)

theorem drop_eq_cons (hp : m < json.length) :
    json.drop m = json.getD m 0 :: json.drop (m + 1) := by
  rw [List.drop_eq_getElem_cons hp]
  simp [List.getD_eq_getElem?_getD, hp]

/-- A round of a loop pushes the byte at the cursor, or is done, as `δ` says. -/
def Round {τ σ : Type} (json : Bytes) (δ : σ → UInt8 → Option σ) (view : τ → ℕ → σ)
    (text : τ → Bytes) (x : τ) (q : JsonFlattenParser) :
    Flow τ τ → JsonFlattenParser → Prop
  | .next x', q' => Moved json 1 q q' ∧
    δ (view x q.curPos) (json.getD q.curPos 0) = some (view x' q'.curPos) ∧
    text x' = text x ++ [json.getD q.curPos 0]
  | .done x', q' => Moved json 0 q q' ∧
    δ (view x q.curPos) (json.getD q.curPos 0) = none ∧ text x' = text x

theorem ends_whileRest {τ σ : Type} (δ : σ → UInt8 → Option σ) (view : τ → ℕ → σ)
    (text : τ → Bytes) {body : τ → Scan (Flow τ τ)}
    (hbody : ∀ x q, Fine json q → p.curPos ≤ q.curPos → q.curPos < json.length →
      Ends (body x) q (Round json δ view text x q))
    (x : τ) (h : Fine json p) (hp : p.curPos ≤ json.length) (hfuel : json.length < fuel) :
    Ends (whileRest fuel json body x) p fun x' p' =>
      text x' = text x ++ span δ (view x p.curPos) (json.drop p.curPos) ∧
        Moved json (span δ (view x p.curPos) (json.drop p.curPos)).length p p' := by
  -- what is pushed and what is still to be pushed is the same in every round
  let goal := text x ++ span δ (view x p.curPos) (json.drop p.curPos)
  let stop := p.curPos + (span δ (view x p.curPos) (json.drop p.curPos)).length
  have hloop : Ends (whileRest fuel json body x) p fun x' p' =>
      text x' = goal ∧ Fine json p' ∧ p'.curPos = stop ∧ p'.kvList = p.kvList := by
    refine Ends.loop (fun y q => Fine json q ∧ p.curPos ≤ q.curPos ∧ q.curPos ≤ json.length ∧
        q.kvList = p.kvList ∧ text y ++ span δ (view y q.curPos) (json.drop q.curPos) = goal ∧
        q.curPos + (span δ (view y q.curPos) (json.drop q.curPos)).length = stop)
      (fun _ q => json.length - q.curPos) ?_ fuel ⟨h, Nat.le_refl _, hp, rfl, rfl, rfl⟩ (by omega)
    rintro y q ⟨hfine, hge, hle, hkv, hgoal, hstop⟩
    refine Ends.bind (Ends.get (Ends.ite (fun hlt => ?_) fun hlt => Ends.pure ?_))
    · rw [drop_eq_cons hlt, span] at hgoal hstop
      refine (hbody y q hfine hge hlt).mono ?_
      rintro (y' | y') q' ⟨hm, hδ, htext⟩
      · have hcur := hm.curPos
        simp only [hδ, List.length_cons] at hgoal hstop
        rw [← hcur] at hgoal hstop
        refine ⟨⟨hm.fine, by omega, by omega, hm.kvList.trans hkv, ?_, by omega⟩, by omega⟩
        rw [htext, List.append_assoc]
        exact hgoal
      · simp only [hδ, List.append_nil, List.length_nil, Nat.add_zero] at hgoal hstop
        exact ⟨htext.trans hgoal, hm.fine, hm.curPos.trans hstop, hm.kvList.trans hkv⟩
    · rw [List.drop_of_length_le (by omega), span] at hgoal hstop
      exact ⟨by rw [← hgoal, List.append_nil], hfine, by rw [← hstop]; rfl, hkv⟩
  refine hloop.mono ?_
  rintro x' p' ⟨htext, hfine, hcur, hkv⟩
  exact ⟨htext, hfine, hcur, hkv⟩

/-- The bytes a loop pushes are those of the text. -/
theorem Moved.le_length {σ : Type} {δ : σ → UInt8 → Option σ} {s : σ}
    (h : Moved json (span δ s (json.drop p.curPos)).length p p') (hp : p.curPos ≤ json.length) :
    p'.curPos ≤ json.length := by
  have := length_span_le δ s (json.drop p.curPos)
  rw [List.length_drop] at this
  rw [h.curPos]
  omega

/-! ### The functions -/

theorem ends_parseKey (h : Fine json p) (hp : p.curPos < json.length)
    (hfuel : json.length < fuel) :
    Ends (parseKey fuel json) p fun key p' =>
      key = scanKey (json.drop (p.curPos + 1)) ∧ Moved json (key.length + 2) p p' := by
  refine ends_advance h (Nat.le_of_lt hp) fun p₁ h₁ => ?_
  have hp₁ : p₁.curPos ≤ json.length := by rw [h₁.curPos]; exact hp
  refine Ends.bind ((ends_whileRest keyStep (fun _ _ => ()) id ?_ [] h₁.fine hp₁ hfuel).mono
    ?_)
  · intro key q hq _ hlt
    refine ends_cur hq (Nat.le_of_lt hlt) fun q₁ hq₁ => ?_
    refine Ends.ite (fun hc => Ends.pure ⟨hq₁, if_pos hc, rfl⟩) fun hc => Ends.map ?_
    refine (hq₁.ends_push (Nat.le_of_lt hlt) key).mono ?_
    rintro key' q₂ ⟨htxt, hq₂⟩
    exact ⟨hq₂, if_neg hc, htxt⟩
  · rintro key p₂ ⟨hkey, h₂⟩
    refine ends_advance h₂.fine (h₂.le_length hp₁) fun p₃ h₃ => Ends.pure ?_
    rw [h₁.curPos] at hkey h₂
    have hkey' : key = scanKey (json.drop (p.curPos + 1)) := hkey
    refine ⟨hkey', ?_⟩
    have hm := (h₁.trans h₂).trans h₃
    rwa [show 1 + _ + 1 = key.length + 2 by rw [hkey', scanKey]; omega] at hm

theorem ends_parseNumer (h : Fine json p) (hp : p.curPos ≤ json.length)
    (hfuel : json.length < fuel) :
    Ends (parseNumer fuel json) p fun number p' =>
      number = scanNumer (json.drop p.curPos) ∧ Moved json number.length p p' := by
  refine (ends_whileRest numerStep (fun _ _ => ()) id ?_ [] h hp hfuel).mono ?_
  · intro number q hq _ hlt
    refine ends_cur hq (Nat.le_of_lt hlt) fun q₁ hq₁ => ?_
    refine Ends.ite (fun hc => Ends.pure ⟨hq₁, if_pos hc, rfl⟩) fun hc => Ends.map ?_
    refine (hq₁.ends_push (Nat.le_of_lt hlt) number).mono ?_
    rintro number' q₂ ⟨htxt, hq₂⟩
    exact ⟨hq₂, if_neg hc, htxt⟩
  · rintro number p' ⟨hnumber, hm⟩
    have hnumber' : number = scanNumer (json.drop p.curPos) := hnumber
    exact ⟨hnumber', by rwa [hnumber']⟩

/-- The opening byte, a loop that pushes, and the byte it stopped at. -/
theorem ends_closed {τ σ : Type} (δ : σ → UInt8 → Option σ) (view : τ → ℕ → σ) (text : τ → Bytes)
    {body : τ → Scan (Flow τ τ)} (init : Bytes → τ) (h : Fine json p) (hp : p.curPos < json.length)
    (hfuel : json.length < fuel)
    (hbody : ∀ x q, Fine json q → p.curPos + 1 ≤ q.curPos → q.curPos < json.length →
      Ends (body x) q (Round json δ view text x q))
    (hinit : ∀ txt, text (init txt) = txt) :
    Ends (do
        let txt ← push json []
        let r ← whileRest fuel json body (init txt)
        push json (text r)) p fun txt p' =>
      txt = json.getD p.curPos 0 :: closed (span δ
          (view (init [json.getD p.curPos 0]) (p.curPos + 1)) (json.drop (p.curPos + 1)))
        (json.drop (p.curPos + 1)) ∧
      Moved json txt.length p p' := by
  refine Ends.bind ((ends_push h (Nat.le_of_lt hp) []).mono ?_)
  rintro txt p₁ ⟨rfl, h₁⟩
  have hcur := h₁.curPos
  have hp₁ : p₁.curPos ≤ json.length := by omega
  refine Ends.bind ((ends_whileRest δ view text (hcur ▸ hbody) _ h₁.fine hp₁ hfuel).mono ?_)
  rintro x p₂ ⟨htext, h₂⟩
  refine (ends_push h₂.fine (h₂.le_length hp₁) (text x)).mono ?_
  rintro txt p₃ ⟨rfl, h₃⟩
  have hstop := h₂.curPos
  rw [hinit] at htext
  rw [hcur] at htext h₂ hstop
  have hlast : ∀ n, p₂.curPos = p.curPos + 1 + n →
      json.getD p₂.curPos 0 = ((json.drop (p.curPos + 1)).drop n).headD 0 := by
    intro n hn
    rw [List.drop_drop, ← hn, List.getD_eq_getElem?_getD, List.headD_eq_head?_getD,
      List.head?_drop]
  have hm := (h₁.trans h₂).trans h₃
  rw [htext, hlast _ hstop]
  refine ⟨by simp [closed], ?_⟩
  convert hm using 1
  simp only [List.length_append, List.length_singleton, List.nil_append]

/-- The byte before is read behind the opening quotation only. -/
theorem ends_closesString {f : Bool → Scan α} (h : Fine json p) (hp : p.curPos < json.length)
    (hpos : 0 < p.curPos)
    (hf : ∀ p', Moved json 0 p p' → Ends (f (decide (charFilter (json.getD p.curPos 0) = stringFlag ∧
      json.getD (p.curPos - 1) 0 ≠ 92))) p' Q) :
    Ends (closesString json >>= f) p Q := by
  refine Ends.bind (ends_cur h (Nat.le_of_lt hp) fun p₁ h₁ => ?_)
  have hcur : p₁.curPos = p.curPos := h₁.curPos
  refine Ends.ite (fun hc => Ends.bind (Ends.get ?_)) fun hc => Ends.pure ?_
  · have hprev : prevPos p₁.curPos = p.curPos - 1 := by
      rw [hcur, prevPos, if_neg (by omega)]
    rw [hprev]
    refine ends_charAt h₁.fine (by omega) fun p₂ h₂ => Ends.pure ?_
    have hbool : (json.getD (p.curPos - 1) 0 != 92) =
        decide (charFilter (json.getD p.curPos 0) = stringFlag ∧
          json.getD (p.curPos - 1) 0 ≠ 92) := by
      rw [Bool.eq_iff_iff, bne_iff_ne, decide_eq_true_iff, and_iff_right hc]
    rw [hbool]
    exact hf p₂ (h₁.trans h₂)
  · have hbool := decide_eq_false fun hand : charFilter (json.getD p.curPos 0) = stringFlag ∧
        json.getD (p.curPos - 1) 0 ≠ 92 => hc hand.1
    rw [← hbool]
    exact hf p₁ h₁

theorem ends_parseString (h : Fine json p) (hp : p.curPos < json.length)
    (hfuel : json.length < fuel) :
    Ends (parseString fuel json) p fun txt p' =>
      txt = scanString (json.getD p.curPos 0) (json.drop (p.curPos + 1)) ∧
        Moved json txt.length p p' := by
  refine ends_closed stringStep (fun _ i => json.getD (i - 1) 0) id id h hp hfuel ?_ fun _ => rfl
  intro txt q hq hge hlt
  refine ends_closesString hq hlt (by omega) fun q₁ hq₁ => ?_
  refine Ends.ite (fun hc => Ends.pure ⟨hq₁, if_pos (of_decide_eq_true hc), rfl⟩)
    fun hc => Ends.map ?_
  refine (hq₁.ends_push (Nat.le_of_lt hlt) txt).mono ?_
  rintro txt' q₂ ⟨htxt, hq₂⟩
  refine ⟨hq₂, ?_, htxt⟩
  rw [hq₂.curPos]
  exact if_neg fun h => hc (decide_eq_true h)

theorem ends_parseBrackets (h : Fine json p) (hp : p.curPos < json.length)
    (hfuel : json.length < fuel) :
    Ends (parseBrackets fuel json (json.getD p.curPos 0)) p fun val p' =>
      val = scanBrackets (json.getD p.curPos 0) (json.drop (p.curPos + 1)) ∧
        Moved json val.length p p' := by
  let l := json.getD p.curPos 0
  refine ends_closed (bracketStep l) (fun x _ => x.1) Prod.snd (fun txt => ((1 : ℤ), txt)) h hp
    hfuel ?_ fun _ => rfl
  rintro ⟨counter, val⟩ q hq hge hlt
  -- pushing the byte at the cursor, with the counter moved on
  have hpush : ∀ {q' : JsonFlattenParser} {counter' : ℤ}, Moved json 0 q q' →
      bracketStep l counter (json.getD q.curPos 0) = some counter' →
      Ends (do
        let val ← push json val
        pure (Flow.next (counter', val))) q'
        (Round json (bracketStep l) (fun x _ => x.1) Prod.snd (counter, val) q) := by
    intro q' counter' hq' hstep
    refine Ends.bind ((hq'.ends_push (Nat.le_of_lt hlt) val).mono ?_)
    rintro txt' q₂ ⟨htxt, hq₂⟩
    exact Ends.pure ⟨hq₂, hstep, htxt⟩
  refine ends_cur hq (Nat.le_of_lt hlt) fun q₁ hq₁ => ?_
  have hcur₁ : q₁.curPos = q.curPos := hq₁.curPos
  refine Ends.ite (fun hl => hpush hq₁ (if_pos hl)) fun hl => ?_
  refine ends_cur hq₁.fine (by omega) fun q₂ hq₂ => ?_
  have hm := hq₁.trans hq₂
  rw [hcur₁]
  refine Ends.ite (fun hr => Ends.ite (fun h0 => Ends.pure ⟨hm, ?_, rfl⟩) fun h0 => hpush hm ?_)
    fun hr => hpush hm ?_
  · rw [bracketStep, if_neg hl, if_pos hr, if_pos h0]
  · rw [bracketStep, if_neg hl, if_pos hr, if_neg h0]
  · rw [bracketStep, if_neg hl, if_neg hr]

theorem ends_parseValue (h : Fine json p) (hfuel : json.length < fuel) :
    Ends (parseValue fuel json) p fun val p' =>
      val = (scanValue (json.drop p.curPos)).1 ∧
        Moved json (scanValue (json.drop p.curPos)).2 p p' := by
  let goal := (scanValue (json.drop p.curPos)).1
  let stop := p.curPos + (scanValue (json.drop p.curPos)).2
  have hloop : Ends (parseValue fuel json) p fun val p' =>
      val = goal ∧ Fine json p' ∧ p'.curPos = stop ∧ p'.kvList = p.kvList := by
    refine Ends.loop (fun val q => val = [] ∧ Fine json q ∧ q.kvList = p.kvList ∧
        (scanValue (json.drop q.curPos)).1 = goal ∧
        q.curPos + (scanValue (json.drop q.curPos)).2 = stop)
      (fun _ q => json.length - q.curPos) ?_ fuel ⟨rfl, h, rfl, rfl, rfl⟩ (by omega)
    rintro val q ⟨rfl, hq, hkv, hgoal, hstop⟩
    refine Ends.bind (Ends.get (Ends.ite (fun hlt => ?_) fun hlt => Ends.pure ?_))
    · have hdone : ∀ {q'}, Moved json (scanValue (json.drop q.curPos)).2 q q' →
          (scanValue (json.drop q.curPos)).1 = goal ∧ Fine json q' ∧ q'.curPos = stop ∧
            q'.kvList = p.kvList := fun hm =>
        ⟨hgoal, hm.fine, by rw [hm.curPos, hstop], hm.kvList.trans hkv⟩
      rw [drop_eq_cons hlt, scanValue] at hdone hgoal hstop
      refine ends_cur hq (Nat.le_of_lt hlt) fun q₁ hq₁ => ?_
      have hcur₁ : q₁.curPos = q.curPos := hq₁.curPos
      refine Ends.ite (fun hc => ?_) fun hc => Ends.ite (fun hc' => ?_) fun hc' =>
        Ends.ite (fun hc'' => ?_) fun hc'' => ?_
      · rw [if_pos hc] at hdone
        refine ends_cur hq₁.fine (by omega) fun q₂ hq₂ => Ends.map ?_
        have hcur₂ : q₂.curPos = q.curPos := hq₂.curPos.trans hcur₁
        rw [hcur₁, ← hcur₂]
        refine (ends_parseBrackets hq₂.fine (by omega) hfuel).mono ?_
        rintro val q₃ ⟨rfl, hq₃⟩
        have hm := (hq₁.trans hq₂).trans hq₃
        rw [hcur₂] at hm ⊢
        exact hdone (by simpa using hm)
      · rw [if_neg hc, if_pos hc'] at hdone
        refine Ends.map ((ends_parseNumer hq₁.fine (by omega) hfuel).mono ?_)
        rintro val q₃ ⟨rfl, hq₃⟩
        have hm := hq₁.trans hq₃
        rw [hcur₁, drop_eq_cons hlt] at hm ⊢
        exact hdone (by simpa using hm)
      · rw [if_neg hc, if_neg hc', if_pos hc''] at hdone
        refine Ends.map ((ends_parseString hq₁.fine (by omega) hfuel).mono ?_)
        rintro val q₃ ⟨rfl, hq₃⟩
        have hm := hq₁.trans hq₃
        rw [hcur₁] at hm ⊢
        exact hdone (by simpa using hm)
      · rw [if_neg hc, if_neg hc', if_neg hc''] at hgoal hstop
        refine ends_advance hq₁.fine (by omega) fun q₂ hq₂ => Ends.pure ?_
        have hm := hq₁.trans hq₂
        have hcur := hm.curPos
        rw [show q.curPos + 1 = q₂.curPos by omega] at hgoal hstop
        exact ⟨⟨rfl, hm.fine, hm.kvList.trans hkv, hgoal, by omega⟩, by omega⟩
    · rw [List.drop_of_length_le (by omega), scanValue] at hgoal hstop
      exact ⟨hgoal, hq, hstop, hkv⟩
  refine hloop.mono ?_
  rintro val p' ⟨hval, hfine, hcur, hkv⟩
  exact ⟨hval, hfine, hcur, hkv⟩

/-- On every text `parse` ends with the pairs of `scan`. -/
theorem ends_parse (json : Bytes) (p : JsonFlattenParser) (hfuel : json.length < fuel) :
    Ends (parse fuel json) p fun _ p' => p'.kvList = scan json ∧ Fine json p' := by
  refine Ends.bind (Ends.modify ?_)
  have hstart : Fine json {} :=
    ⟨fun i hi => (List.not_mem_nil hi).elim, List.Pairwise.nil,
      fun i hi => (List.not_mem_nil hi).elim, Nat.zero_le _⟩
  refine Ends.loop (fun _ q => Fine json q ∧ q.kvList ++ scan (json.drop q.curPos) = scan json)
    (fun _ q => json.length - q.curPos) ?_ fuel ⟨hstart, rfl⟩ (by omega)
  rintro ⟨⟩ q ⟨hq, hkv⟩
  refine Ends.bind (Ends.get (Ends.ite (fun hlt => ?_) fun hlt => Ends.pure ?_))
  · rw [drop_eq_cons hlt, scan] at hkv
    refine ends_cur hq (Nat.le_of_lt hlt) fun q₁ hq₁ => ?_
    have hcur₁ : q₁.curPos = q.curPos := hq₁.curPos
    refine Ends.ite (fun hc => ?_) fun hc => ?_
    · rw [if_pos hc] at hkv
      refine ends_advance hq₁.fine (by omega) fun q₂ hq₂ => Ends.pure ?_
      have hm := hq₁.trans hq₂
      have hcur := hm.curPos
      rw [show q.curPos + 1 = q₂.curPos by omega, ← hm.kvList] at hkv
      exact ⟨⟨hm.fine, hkv⟩, by omega⟩
    · rw [if_neg hc] at hkv
      refine Ends.bind ((ends_parseKey hq₁.fine (by omega) hfuel).mono ?_)
      rintro key q₂ ⟨hkey, hq₂⟩
      refine Ends.bind ((ends_parseValue hq₂.fine hfuel).mono ?_)
      rintro val q₃ ⟨hval, hq₃⟩
      refine Ends.bind (Ends.modify (Ends.pure ?_))
      have hm := hq₁.trans hq₂
      have hcur₂ := hm.curPos
      have hcur₃ := hq₃.curPos
      have hafter : json.drop q₂.curPos = afterKey (json.drop (q.curPos + 1)) := by
        rw [afterKey, List.drop_drop, hcur₂, ← hcur₁, ← hkey]
        congr 1
        omega
      rw [hafter] at hval hcur₃
      rw [hcur₁] at hkey
      refine ⟨⟨?_, ?_⟩, ?_⟩
      · exact ⟨hq₃.fine.reads, hq₃.fine.sorted, hq₃.fine.moves_le, hq₃.fine.curPos_le⟩
      · simp only [hq₃.kvList, hm.kvList, hcur₃, ← hkv, hkey, hval, List.append_assoc,
          List.singleton_append, ← hafter, List.drop_drop]
      · show json.length - q₃.curPos < json.length - q.curPos
        omega
  · rw [List.drop_of_length_le (by omega), scan, List.append_nil] at hkv
    exact ⟨hkv, hq⟩

/-! ## Every text -/

theorem charFilter_eq_stringFlag {c : UInt8} : charFilter c = stringFlag ↔ c = 34 := by
  unfold charFilter
  split_ifs with h1 h2 h3
  · refine iff_of_false (by decide) ?_
    rintro rfl
    exact absurd h1 (by decide)
  · refine iff_of_false (by decide) ?_
    rintro rfl
    exact absurd h2 (by decide)
  · exact iff_of_true rfl h3
  · exact iff_of_false (by decide) h3
  · exact iff_of_false (by decide) h3

/-- Every pair starts at a quotation of its own. -/
theorem length_scan_le (bs : Bytes) : (scan bs).length ≤ bs.count 34 := by
  fun_induction scan bs with
  | case1 => exact Nat.zero_le _
  | case2 c cs hc ih => exact ih.trans (List.count_le_count_cons)
  | case3 c cs hc value ih =>
    have hq : c = 34 := charFilter_eq_stringFlag.1 (by simpa using hc)
    have hsub : ((afterKey cs).drop value.2).count 34 ≤ cs.count 34 :=
      ((List.drop_sublist _ _).trans (List.drop_sublist _ _)).count_le 34
    rw [List.length_cons, hq, List.count_cons_self]
    exact Nat.succ_le_succ (ih.trans hsub)

/-- `parse` ends on every text : no read is past the terminator, the cursor never goes back and
stays within one byte of it, and there are no more pairs than quotations. -/
theorem parse_total (json : Bytes) (p : JsonFlattenParser) (hfuel : json.length < fuel) :
    ∃ p', (parse fuel json).run p = some ((), p') ∧
      (∀ i, .read i ∈ p'.log → i ≤ json.length) ∧
      (moves p'.log).Pairwise (· ≤ ·) ∧ (∀ i ∈ moves p'.log, i ≤ json.length + 1) ∧
      p'.kvList.length ≤ json.count 34 := by
  obtain ⟨⟨⟩, p', hrun, hkv, hfine⟩ := ends_parse json p hfuel
  refine ⟨p', hrun, hfine.reads, hfine.sorted, ?_, by rw [hkv]; exact length_scan_le json⟩
  intro i hi
  exact (hfine.moves_le i hi).trans hfine.curPos_le

/-- A quotation at the end of the text. -/
theorem parse_total_quotation :
    ∃ p', (parse 2 [34]).run {} = some ((), p') ∧
      (∀ i, .read i ∈ p'.log → i ≤ 1) ∧
      (moves p'.log).Pairwise (· ≤ ·) ∧ (∀ i ∈ moves p'.log, i ≤ 1 + 1) ∧
      p'.kvList.length ≤ ([34] : Bytes).count 34 :=
  parse_total [34] {} (by decide)

end

end JsonFlattenParser

end HiSysEvent
