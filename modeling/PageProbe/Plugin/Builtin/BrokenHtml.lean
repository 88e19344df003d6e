import PageProbe.Plugin.Builtin.Drawing

namespace PageProbe.BrokenHtml

open PageProbe.Random

def moduleId : String := "HTMLGenModule"

def tags : List String := [
  "<!--", "-->", "<!DOCTYPE>", "<a>", "<abbr>", "<address>", "<applet>", "<area>", "<article>",
  "<aside>", "<audio>", "<b>", "<base>", "<bdo>", "<big>", "<blockquote>", "<body>", "<br>",
  "<button>", "<canvas>", "<caption>", "<center>", "<cite>", "<code>", "<col>", "<colgroup>",
  "<datalist>", "<dd>", "<del>", "<details>", "<dialog>", "<dfn>", "<div>", "<dl>", "<dt>", "<em>",
  "<embed>", "<fieldset>", "<figure>", "<font>", "<footer>", "<form>", "<frame>", "<frameset>",
  "<h1>", "<h2>", "<h3>", "<h4>", "<h5>", "<h6>", "<head>", "<header>", "<hr>", "<html>", "<i>",
  "<iframe>", "<img>", "<input>", "<ins>", "<kbd>", "<label>", "<legend>", "<li>", "<link>",
  "<map>", "<mark>", "<menu>", "<meta>", "<meter>", "<nav>", "<noframes>", "<noscript>",
  "<object>", "<ol>", "<optgroup>", "<option>", "<output>", "<p>", "<param>", "<pre>",
  "<progress>", "<q>", "<rp>", "<rt>", "<ruby>", "<s>", "<samp>", "<script>", "<section>",
  "<select>", "<small>", "<source>", "<span>", "<strike>", "<strong>", "<style>", "<sub>", "<sup>",
  "<table>", "<tbody>", "<td>", "<textarea>", "<tfoot>", "<th>", "<thead>", "<time>", "<title>",
  "<tr>", "<tt>", "<u>", "<ul>", "<var>", "<video>", "<xmp>"]

variable {σ : Type} [WordSource σ]

/-- One of the small letters. -/
def letter : StateM σ Char := do return Char.ofNat ('a'.toNat + (← below 26))

/-- Three to eight small letters. -/
def word : StateM σ String := do
  let length ← below 6
  return String.ofList (← times (length + 3) letter)

/-- A tag, behind a word in one of two cases. -/
def text : StateM σ String := do
  let tag ← pick tags "<a>"
  if ← coin then return (← word) ++ tag else return tag

def generator : Nat → Generator :=
  Generator.ofDraw "HTML Generator"
    "This module generates broken HTML code by randomly selecting HTML tags from a list" text

end PageProbe.BrokenHtml
