import CotCompression.Shared.Json

set_option autoImplicit false

-- Files of objects, one on each line.
namespace Jsonl

open Text (strip isSpace)
open Json (Value)

-- for line in f, where \r\n and \r end a line as well
def linesFrom (line : Text) : Text → List Text
  | [] => if line = [] then [] else [line.reverse]
  | '\r' :: '\n' :: rest => ('\n' :: line).reverse :: linesFrom [] rest
  | c :: rest =>
    if c = '\n' ∨ c = '\r' then ('\n' :: line).reverse :: linesFrom [] rest else linesFrom (c :: line) rest

def fileLines (t : Text) : List Text := linesFrom [] t

def solidLines (t : Text) : List Text := ((fileLines t).map strip).filter fun line => decide (line ≠ [])

def read (t : Text) : Option (List Value) := (solidLines t).mapM Json.loads

def OneLine (line : Text) : Prop := ∀ c ∈ line, c ≠ '\n' ∧ c ≠ '\r'

theorem linesFrom_oneLine {line : Text} (clean : OneLine line) (before rest : Text) :
    linesFrom before (line ++ '\n' :: rest) = (before.reverse ++ line ++ ['\n']) :: fileLines rest := by
  induction line generalizing before with
  | nil => rw [List.nil_append, linesFrom.eq_3 _ _ _ (by simp), if_pos (.inl rfl)]; simp [fileLines]
  | cons c line ih =>
    obtain ⟨plain, clean⟩ := List.forall_mem_cons.mp clean
    rw [List.cons_append, linesFrom.eq_3 _ _ _ (by simp [plain.2]), if_neg (by simp [plain]), ih clean]
    simp

theorem fileLines_cons {line : Text} (clean : OneLine line) (rest : Text) :
    fileLines (line ++ '\n' :: rest) = (line ++ ['\n']) :: fileLines rest :=
  linesFrom_oneLine clean [] rest

theorem fileLines_flatMap {lines : List Text} (clean : ∀ line ∈ lines, OneLine line) (rest : Text) :
    fileLines (lines.flatMap (fun line => line ++ ['\n']) ++ rest) =
      lines.map (fun line => line ++ ['\n']) ++ fileLines rest := by
  induction lines with
  | nil => rfl
  | cons line lines ih =>
    obtain ⟨first, clean⟩ := List.forall_mem_cons.mp clean
    rw [List.flatMap_cons, List.append_assoc, List.append_assoc, List.singleton_append, fileLines_cons first,
      ih clean]
    rfl

theorem join_newline (parts : List Text) : Text.join ['\n'] parts ++ ['\n'] =
    (if parts = [] then [[]] else parts).flatMap fun line => line ++ ['\n'] := by
  cases parts with
  | nil => rfl
  | cons part parts =>
    rw [if_neg (by simp)]
    induction parts generalizing part with
    | nil => simp
    | cons next parts ih =>
      rw [Text.join_cons_cons, List.flatMap_cons, ← ih next]
      simp

section Rows

variable {ensureAscii : Bool}

theorem dumps_oneLine {v : Value} (exact : v.Exact) : OneLine (Json.dumps ensureAscii v) := by
  intro c member
  have printable := Json.dumps_printable v exact c member
  constructor <;> (rintro rfl; exact absurd printable.1 (by decide))

theorem strip_dumps (fields : List (Text × Value)) :
    strip (Json.dumps ensureAscii (.object fields) ++ ['\n']) = Json.dumps ensureAscii (.object fields) := by
  have left : Text.lstrip (Json.dumps ensureAscii (.object fields) ++ ['\n']) =
      Json.dumps ensureAscii (.object fields) ++ ['\n'] := Text.lstrip_of_head _ (by decide)
  rw [strip, left, Text.rstrip, List.rdropWhile_concat_pos _ _ _ (by decide), ← Text.rstrip, Json.dumps,
    ← List.cons_append]
  exact Text.rstrip_of_last _ (by decide)

def rows (ensureAscii : Bool) (objects : List (List (Text × Value))) : List Text :=
  objects.map fun fields => Json.dumps ensureAscii (.object fields)

theorem rows_oneLine {objects : List (List (Text × Value))} (exact : ∀ fields ∈ objects, (Value.object fields).Exact) :
    ∀ line ∈ rows ensureAscii objects, OneLine line := by
  intro line member
  obtain ⟨fields, inside, rfl⟩ := List.mem_map.mp member
  exact dumps_oneLine (exact fields inside)

theorem solidLines_blank (rest : Text) : solidLines ('\n' :: rest) = solidLines rest := by
  rw [solidLines, ← List.nil_append ('\n' :: rest), fileLines_cons (fun c member => absurd member List.not_mem_nil),
    List.map_cons, List.filter_cons_of_neg (by decide)]
  rfl

theorem solidLines_rows {objects : List (List (Text × Value))}
    (exact : ∀ fields ∈ objects, (Value.object fields).Exact) (rest : Text) :
    solidLines ((rows ensureAscii objects).flatMap (fun line => line ++ ['\n']) ++ rest) =
      rows ensureAscii objects ++ solidLines rest := by
  have stripped : ((rows ensureAscii objects).map fun line => line ++ ['\n']).map strip = rows ensureAscii objects := by
    rw [rows, List.map_map, List.map_map]
    exact List.map_congr_left fun fields _ => strip_dumps fields
  have filled : (rows ensureAscii objects).filter (fun line => decide (line ≠ [])) = rows ensureAscii objects := by
    refine List.filter_eq_self.mpr fun line member => ?_
    obtain ⟨fields, -, rfl⟩ := List.mem_map.mp member
    rfl
  rw [solidLines, fileLines_flatMap (rows_oneLine exact), List.map_append, stripped, List.filter_append, filled]
  rfl

theorem loads_rows {objects : List (List (Text × Value))} (exact : ∀ fields ∈ objects, (Value.object fields).Exact) :
    (rows ensureAscii objects).mapM Json.loads = some (objects.map Value.object) := by
  induction objects with
  | nil => rfl
  | cons fields objects ih =>
    obtain ⟨first, exact⟩ := List.forall_mem_cons.mp exact
    rw [rows, List.map_cons, List.mapM_cons, Json.loads_dumps _ first, ← rows, ih exact]
    rfl

end Rows

end Jsonl
