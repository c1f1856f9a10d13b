import PaxosKVStore.Lib.Getline
import PaxosKVStore.RequestFlow

/-!
# The command line of the client

`command` is what one line of input makes the client do.  The words of a line
are read off it by `getline` with a space, so `Lib.Getline` says which lines
have which words.  `Denotes` is the grammar in its own terms, and
`command_exact` says that the client sends what the grammar denotes.
-/

namespace PaxosKVStore

namespace Client

/-- One turn of the loop of `ToLowerCase`. -/
def lowerChar (c : Char) : Char :=
  if c ≤ 'Z' ∧ 'A' ≤ c then
    Char.ofNat ((c.toNat : Int) - (('Z'.toNat : Int) - 'z'.toNat)).toNat
  else c

/-- `ToLowerCase`. -/
def toLowerCase (s : String) : String := s.map lowerChar

/-- The words of a line, as the loop over `getline` collects them. -/
def args (query : String) : List String :=
  (fields ' ' { rest := query.toList }).map String.ofList

/-- What a line makes the client do. -/
inductive Command where
  | exit
  | send (request : ClientRequest)
  | invalid
  deriving DecidableEq, Repr

/-- One turn of the loop of `RunClient`. -/
def command (query : String) : Command :=
  if toLowerCase query = "exit" then .exit
  else
    let args := args query
    if args.length = 2 ∧ toLowerCase (args.getD 0 "") = "get" then
      .send (.get (args.getD 1 ""))
    else if args.length = 3 ∧ toLowerCase (args.getD 0 "") = "put" then
      .send (.put (args.getD 1 "") (args.getD 2 ""))
    else if args.length = 2 ∧ toLowerCase (args.getD 0 "") = "delete" then
      .send (.delete (args.getD 1 ""))
    else .invalid

/-- `RunClient`: what it sends for the lines that are typed.  After the end of
the input it reads empty lines, and sends nothing for them. -/
def runClient : List String → List ClientRequest
  | [] => []
  | query :: queries =>
      match command query with
      | .exit => []
      | .send request => request :: runClient queries
      | .invalid => runClient queries

/-! ## The grammar -/

/-- The line is `text`, with a further space or without it.  It needs the
space when the last word of `text` is empty. -/
def Ends (line text last : String) : Prop :=
  (line = text ∧ last ≠ "") ∨ line = text ++ " "

/-- No space in it. -/
def Spaceless (word : String) : Prop := ' ' ∉ word.toList

instance (word : String) : Decidable (Spaceless word) :=
  inferInstanceAs (Decidable (' ' ∉ word.toList))

/-- The request that a line stands for.  A keyword may be in any case. -/
inductive Denotes : String → ClientRequest → Prop where
  | get {line word key : String} (hword : word.toLower = "get") (hkey : Spaceless key)
      (hline : Ends line (word ++ " " ++ key) key) : Denotes line (.get key)
  | put {line word key value : String} (hword : word.toLower = "put") (hkey : Spaceless key)
      (hvalue : Spaceless value)
      (hline : Ends line (word ++ " " ++ key ++ " " ++ value) value) :
      Denotes line (.put key value)
  | delete {line word key : String} (hword : word.toLower = "delete") (hkey : Spaceless key)
      (hline : Ends line (word ++ " " ++ key) key) : Denotes line (.delete key)

/-- The word that a request begins with. -/
def keyword : ClientRequest → String
  | .get _ => "get"
  | .put _ _ => "put"
  | .delete _ => "delete"

/-- The words that follow it. -/
def operands : ClientRequest → List String
  | .get key => [key]
  | .put key value => [key, value]
  | .delete key => [key]

/-- A request as a line, with `word` for its keyword. -/
def format (word : String) (request : ClientRequest) : String :=
  " ".intercalate (word :: operands request)

/-! ## Case folding -/

/-- The character arithmetic folds the ASCII letters. -/
theorem lowerChar_eq (c : Char) : lowerChar c = c.toLower := by
  by_cases h : c ≤ 'Z' ∧ 'A' ≤ c
  · have hletters : ∀ n < 91, lowerChar (Char.ofNat n) = (Char.ofNat n).toLower := by decide
    have hletter := hletters c.toNat (Nat.lt_succ_of_le h.1)
    rwa [Char.ofNat_toNat] at hletter
  · unfold lowerChar Char.toLower
    rw [if_neg h, dif_neg fun h' => h ⟨h'.2, h'.1⟩]

theorem toLowerCase_eq (s : String) : toLowerCase s = s.toLower := by
  rw [toLowerCase, funext lowerChar_eq]
  rfl

theorem toList_toLower (s : String) : s.toLower.toList = s.toList.map Char.toLower :=
  String.toList_map ..

/-- Folding does not make a space go away. -/
theorem spaceless_of_toLower {s : String} (h : Spaceless s.toLower) : Spaceless s := by
  intro hmem
  refine h ?_
  rw [toList_toLower]
  exact List.mem_map.mpr ⟨' ', hmem, by decide⟩

/-! ## The words of a line -/

section Words

variable {line word key value : String}

theorem args_eq_iff {words : List String} :
    args line = words ↔ Splits ' ' line.toList (words.map String.toList) := by
  rw [← fields_eq_iff, args]
  constructor
  · rintro rfl
    rw [List.map_map]
    exact (List.map_id'' (fun _ => String.toList_ofList) _).symm
  · intro h
    rw [h, List.map_map]
    exact List.map_id'' (fun _ => String.ofList_toList) _

theorem toList_eq_nil : word.toList = [] ↔ word = "" := by
  rw [← String.toList_inj]
  rfl

/-- The end of a line is its last field. -/
theorem splits_last {rest : List Char} : Splits ' ' rest [word.toList] ↔
    Spaceless word ∧
      ((rest = word.toList ∧ word ≠ "") ∨ rest = word.toList ++ [' ']) := by
  rw [splits_singleton, Ne, toList_eq_nil]
  rfl

theorem args_eq_one : args line = [word] ↔ Spaceless word ∧ Ends line word word := by
  rw [args_eq_iff]
  refine splits_last.trans (and_congr_right fun _ => ?_)
  rw [Ends, ← String.toList_inj, ← String.toList_inj, String.toList_append]
  rfl

theorem args_eq_two : args line = [word, key] ↔
    Spaceless word ∧ Spaceless key ∧ Ends line (word ++ " " ++ key) key := by
  rw [args_eq_iff]
  refine splits_cons_cons.trans (and_congr_right fun _ => ?_)
  constructor
  · rintro ⟨rest, hline, hrest⟩
    obtain ⟨hkey, hend⟩ := splits_last.mp hrest
    refine ⟨hkey, ?_⟩
    rcases hend with ⟨rfl, hne⟩ | rfl
    · exact Or.inl ⟨String.toList_inj.mp (by simp [hline]), hne⟩
    · exact Or.inr (String.toList_inj.mp (by simp [hline]))
  · rintro ⟨hkey, ⟨rfl, hne⟩ | rfl⟩
    · exact ⟨key.toList, by simp, splits_last.mpr ⟨hkey, Or.inl ⟨rfl, hne⟩⟩⟩
    · exact ⟨key.toList ++ [' '], by simp, splits_last.mpr ⟨hkey, Or.inr rfl⟩⟩

theorem args_eq_three : args line = [word, key, value] ↔
    Spaceless word ∧ Spaceless key ∧ Spaceless value ∧
      Ends line (word ++ " " ++ key ++ " " ++ value) value := by
  rw [args_eq_iff]
  refine splits_cons_cons.trans (and_congr_right fun _ => ?_)
  constructor
  · rintro ⟨rest, hline, hrest⟩
    obtain ⟨hkey, rest', rfl, hrest'⟩ := splits_cons_cons.mp hrest
    obtain ⟨hvalue, hend⟩ := splits_last.mp hrest'
    refine ⟨hkey, hvalue, ?_⟩
    rcases hend with ⟨rfl, hne⟩ | rfl
    · exact Or.inl ⟨String.toList_inj.mp (by simp [hline]), hne⟩
    · exact Or.inr (String.toList_inj.mp (by simp [hline]))
  · rintro ⟨hkey, hvalue, ⟨rfl, hne⟩ | rfl⟩
    · exact ⟨key.toList ++ ' ' :: value.toList, by simp,
        .cons hkey (splits_last.mpr ⟨hvalue, Or.inl ⟨rfl, hne⟩⟩)⟩
    · exact ⟨key.toList ++ ' ' :: (value.toList ++ [' ']), by simp,
        .cons hkey (splits_last.mpr ⟨hvalue, Or.inr rfl⟩)⟩

end Words

/-! ## What is sent -/

section Sent

variable {line : String} {request : ClientRequest}

/-- The client leaves for a line of one word only. -/
theorem length_args_of_exit (h : toLowerCase line = "exit") : (args line).length = 1 := by
  have hspaceless : Spaceless line := by
    refine spaceless_of_toLower ?_
    rw [← toLowerCase_eq, h]
    decide
  have hne : line ≠ "" := by
    rintro rfl
    have hlist := congrArg String.toList h
    rw [toLowerCase, String.toList_map] at hlist
    cases hlist
  rw [args_eq_one.mpr ⟨hspaceless, Or.inl ⟨rfl, hne⟩⟩]
  rfl

theorem denotes_of_send (h : command line = .send request) : Denotes line request := by
  unfold command at h
  split at h
  · cases h
  dsimp only at h
  split at h
  · rename_i hget
    obtain ⟨hlength, hword⟩ := hget
    obtain ⟨word, key, hargs⟩ := List.length_eq_two.mp hlength
    rw [hargs] at h hword
    cases h
    obtain ⟨_, hkey, hline⟩ := args_eq_two.mp hargs
    exact .get ((toLowerCase_eq word).symm.trans hword) hkey hline
  split at h
  · rename_i hput
    obtain ⟨hlength, hword⟩ := hput
    obtain ⟨word, key, value, hargs⟩ := List.length_eq_three.mp hlength
    rw [hargs] at h hword
    cases h
    obtain ⟨_, hkey, hvalue, hline⟩ := args_eq_three.mp hargs
    exact .put ((toLowerCase_eq word).symm.trans hword) hkey hvalue hline
  split at h
  · rename_i hdelete
    obtain ⟨hlength, hword⟩ := hdelete
    obtain ⟨word, key, hargs⟩ := List.length_eq_two.mp hlength
    rw [hargs] at h hword
    cases h
    obtain ⟨_, hkey, hline⟩ := args_eq_two.mp hargs
    exact .delete ((toLowerCase_eq word).symm.trans hword) hkey hline
  · cases h

theorem send_of_denotes (h : Denotes line request) : command line = .send request := by
  have hspaceless : ∀ {word expected : String}, word.toLower = expected →
      Spaceless expected → Spaceless word :=
    fun hword h => spaceless_of_toLower (hword ▸ h)
  have hexit : (args line).length ≠ 1 → toLowerCase line ≠ "exit" :=
    fun hlength h => hlength (length_args_of_exit h)
  unfold command
  cases h with
  | @get word key hword hkey hline =>
    have hargs := args_eq_two.mpr ⟨hspaceless hword (by decide), hkey, hline⟩
    rw [if_neg (hexit (by simp [hargs])), hargs]
    simp [toLowerCase_eq, hword]
  | @put word key value hword hkey hvalue hline =>
    have hargs := args_eq_three.mpr ⟨hspaceless hword (by decide), hkey, hvalue, hline⟩
    rw [if_neg (hexit (by simp [hargs])), hargs]
    simp [toLowerCase_eq, hword]
  | @delete word key hword hkey hline =>
    have hargs := args_eq_two.mpr ⟨hspaceless hword (by decide), hkey, hline⟩
    rw [if_neg (hexit (by simp [hargs])), hargs]
    simp [toLowerCase_eq, hword]

/-- A formatted request stands for itself. -/
theorem denotes_format {word : String} (hword : word.toLower = keyword request)
    (hoperands : ∀ operand ∈ operands request, operand ≠ "" ∧ Spaceless operand) :
    Denotes (format word request) request := by
  cases request with
  | get key =>
    obtain ⟨hne, hkey⟩ := hoperands key (by simp [operands])
    exact .get hword hkey (Or.inl ⟨rfl, hne⟩)
  | put key value =>
    obtain ⟨_, hkey⟩ := hoperands key (by simp [operands])
    obtain ⟨hne, hvalue⟩ := hoperands value (by simp [operands])
    exact .put hword hkey hvalue (Or.inl ⟨rfl, hne⟩)
  | delete key =>
    obtain ⟨hne, hkey⟩ := hoperands key (by simp [operands])
    exact .delete hword hkey (Or.inl ⟨rfl, hne⟩)

/-- The client sends what the grammar denotes, and nothing for other lines.  A
request that is typed in any case of its keyword arrives as it was. -/
theorem command_exact :
    (∀ line request, command line = .send request ↔ Denotes line request) ∧
    ∀ word request, word.toLower = keyword request →
      (∀ operand ∈ operands request, operand ≠ "" ∧ Spaceless operand) →
      command (format word request) = .send request :=
  ⟨fun _ _ => ⟨denotes_of_send, send_of_denotes⟩,
    fun _ _ hword hoperands => send_of_denotes (denotes_format hword hoperands)⟩

theorem command_exact_put :
    command (format "PuT" (.put "apple" "Green")) = .send (.put "apple" "Green") :=
  command_exact.2 "PuT" (.put "apple" "Green")
    (String.toList_inj.mp (by rw [toList_toLower]; decide)) (by decide)

/-- A session sends the requests that were typed. -/
theorem runClient_format (typed : List (String × ClientRequest))
    (h : ∀ entry ∈ typed, entry.1.toLower = keyword entry.2 ∧
      ∀ operand ∈ operands entry.2, operand ≠ "" ∧ Spaceless operand) :
    runClient (typed.map fun entry => format entry.1 entry.2) = typed.map Prod.snd := by
  induction typed with
  | nil => rfl
  | cons entry rest ih =>
    obtain ⟨hword, hoperands⟩ := h entry List.mem_cons_self
    have hrest := ih fun entry hentry => h entry (List.mem_cons_of_mem _ hentry)
    rw [List.map_cons, runClient, send_of_denotes (denotes_format hword hoperands),
      List.map_cons]
    exact congrArg (entry.2 :: ·) hrest

end Sent

end Client

end PaxosKVStore
