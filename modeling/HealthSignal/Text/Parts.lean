/-!
A text cut at every occurrence of a character. The parts hold no such character, and there is always at
least one of them.
-/
namespace HealthSignal.Text

def parts (sep : Char) : List Char → List (List Char)
  | [] => [[]]
  | c :: cs =>
    if c = sep then [] :: parts sep cs
    else match parts sep cs with
      | part :: rest => (c :: part) :: rest
      | [] => [[c]]

theorem parts_ne_nil (sep : Char) (cs : List Char) : parts sep cs ≠ [] := by
  cases cs with
  | nil => simp [parts]
  | cons c cs => grind [parts]

theorem sep_notMem_of_mem_parts {sep : Char} {cs part : List Char} (h : part ∈ parts sep cs) :
    sep ∉ part := by
  induction cs generalizing part with
  | nil => simp_all [parts]
  | cons c cs ih => grind [parts]

end HealthSignal.Text
