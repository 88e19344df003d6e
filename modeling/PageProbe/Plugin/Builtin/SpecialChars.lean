import PageProbe.Plugin.Builtin.Drawing

namespace PageProbe.SpecialChars

open PageProbe.Random

def moduleId : String := "specialCharGenModule"

def alphabet : List Char := [
  '<', '>', '"', '\x27', '&', ';', '/', '\\', '%', '\x7b', '\x7d', '(', ')', '[', ']', '=', '\x60',
  '$', '#', '!', '*', '|', '\n', '\x00']

def maxLength : Nat := 8

variable {σ : Type} [WordSource σ]

/-- One to eight characters of the alphabet. -/
def text : StateM σ String := do
  let length ← below maxLength
  return String.ofList (← times (length + 1) (pick alphabet '<'))

def generator : Nat → Generator :=
  Generator.ofDraw "Special Char Generator"
    "This module generates special characters to test filtering functions" text

end PageProbe.SpecialChars
