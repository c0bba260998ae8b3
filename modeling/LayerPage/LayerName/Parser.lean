/-
Reading layer names. Each reader takes the characters that are left and returns a piece together
with the characters after it; a reader that fails returns the characters it could not go on from,
and the offset in the error message is the size of what was read before them.
-/
import LayerPage.Fault
import LayerPage.Text.Blank

namespace LayerPage.LayerName

/-- Where reading stopped, and why. -/
structure Stop where
  problem : Problem
  rest : List Char

/-- A piece and the characters after it. -/
abbrev Reading (α : Type) := Except Stop (α × List Char)

def isLetter (c : Char) : Bool :=
  ('a' ≤ c && c ≤ 'z') || ('A' ≤ c && c ≤ 'Z')

def isIdentifierChar (c : Char) : Bool :=
  isLetter c || c == '-' || c == '_'

def endsKey (c : Char) : Bool :=
  c == '=' || c == ',' || c == ']' || c == '"'

/-- Read the tag clause, which may be absent. -/
def readTag : List Char → Reading String
  | '<' :: cs =>
    match cs.dropWhile isLetter with
    | '>' :: rest => .ok (String.ofList (cs.takeWhile isLetter), rest)
    | rest => .error ⟨.unclosedTag, rest⟩
  | cs => .ok (defaultTag, cs)

/-- Read the value after the `=` of an entry, and the blanks around it. -/
def readValue (cs : List Char) : Reading String :=
  match Text.trimStart cs with
  | '"' :: cs =>
    match cs.dropWhile (· != '"') with
    | '"' :: rest => .ok (String.ofList (cs.takeWhile (· != '"')), Text.trimStart rest)
    | rest => .error ⟨.unterminatedValue, rest⟩
  | rest => .error ⟨.unquotedValue, rest⟩

/-- Read one entry, and the blanks around it. -/
def readEntry (cs : List Char) : Reading (String × String) :=
  let cs := Text.trimStart cs
  let key := Text.trim (cs.takeWhile (!endsKey ·))
  match key, cs.dropWhile (!endsKey ·) with
  | [], rest => .error ⟨.missingKey, rest⟩
  | key, '=' :: rest =>
    (readValue rest).map fun (value, rest) => ((String.ofList key, value), rest)
  | _, rest => .error ⟨.missingEquals, rest⟩

private theorem trimStart_length_le (cs : List Char) : (Text.trimStart cs).length ≤ cs.length :=
  (List.dropWhile_suffix _).length_le

theorem readValue_length {cs rest : List Char} {value : String}
    (h : readValue cs = .ok (value, rest)) : rest.length < cs.length := by
  unfold readValue at h
  split at h
  · next body hb =>
    split at h
    · next after ha =>
      injection h with h
      injection h with _ h
      have hbody : (Text.trimStart cs).length = body.length + 1 := by rw [hb]; rfl
      have hafter : after.length < body.length := by
        have := (List.dropWhile_suffix (l := body) (· != '"')).length_le
        rw [ha] at this
        simpa [Nat.succ_le_iff] using this
      have := trimStart_length_le cs
      have := trimStart_length_le after
      rw [← h]
      omega
    · cases h
  · cases h

theorem readEntry_length {cs rest : List Char} {entry : String × String}
    (h : readEntry cs = .ok (entry, rest)) : rest.length < cs.length := by
  unfold readEntry at h
  simp only at h
  split at h
  · cases h
  · next body hb _ =>
    cases hv : readValue body with
    | error e => rw [hv] at h; cases h
    | ok read =>
      obtain ⟨value, after⟩ := read
      rw [hv] at h
      injection h with h
      injection h with _ h
      have := readValue_length hv
      have h : after = rest := h
      have hbody := (List.dropWhile_suffix (l := Text.trimStart cs) (!endsKey ·)).length_le
      rw [hb] at hbody
      have := trimStart_length_le cs
      simp only [List.length_cons] at hbody
      rw [← h]
      omega
  · cases h

/-- Read entries up to the closing bracket. There is at least one, and commas separate them. -/
def readEntries (cs : List Char) : Reading (List (String × String)) :=
  match h : readEntry cs with
  | .error stop => .error stop
  | .ok (entry, ']' :: rest) => .ok ([entry], rest)
  | .ok (entry, ',' :: rest) =>
    have : rest.length < cs.length := by
      have := readEntry_length h
      simp only [List.length_cons] at this
      omega
    (readEntries rest).map fun (entries, rest) => (entry :: entries, rest)
  | .ok (_, rest) => .error ⟨.unseparatedEntry, rest⟩
termination_by cs.length

/-- Read the entry clause, which may be absent or empty. -/
def readClause : List Char → Reading (List (String × String))
  | '[' :: cs =>
    match Text.trimStart cs with
    | ']' :: rest => .ok ([], rest)
    | cs => readEntries cs
  | cs => .ok ([], cs)

/-- Read a whole name: the three clauses and nothing after them. Of two entries with the same key
the later one counts. -/
def readName (cs : List Char) : Except Stop LayerName := do
  let (tag, cs) ← readTag cs
  let identifier := cs.takeWhile isIdentifierChar
  let (entries, rest) ← readClause (cs.dropWhile isIdentifierChar)
  match rest with
  | [] => return ⟨tag, String.ofList identifier, SortedMap.ofList entries⟩
  | _ => throw ⟨.trailingText, rest⟩

/-- Read a layer name. The fault tells how many bytes of the name could be read. -/
def parse (source : String) : Except Fault LayerName :=
  match readName source.toList with
  | .ok name => .ok name
  | .error stop =>
    .error (.layerName source (Text.utf8Size source.toList - Text.utf8Size stop.rest) stop.problem)

end LayerPage.LayerName
